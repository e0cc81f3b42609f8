import SqlForest.Proofs.Descent.Agreement

/-!
# Parsers in lockstep

Two parsers set out from the same place, one without a limit and one with it.  As long as no level
beyond the limit is entered they do the same, and where the first such level is entered the one with
the limit refuses, while the other goes on (`Lockstep`).  The one without a limit does what the
rules of ever so many levels do, the one with it what the rules of the levels up to the limit do;
`Routine.Follows` says all of this of a routine and two rules.
-/

namespace SqlForest

variable {α β : Type}

theorem Parser.allows_under (p : Parser) {limit level : Nat} :
    (p.under (some limit)).Allows level ↔ level ≤ limit := by
  simp [Allows, under]

/-! ## Two runs -/

/-- A run from the parser without a limit, which has the outcome `wide`, and a run from it with the
limit, which has the outcome `narrow`.  They are the same, or they part where the first level beyond
the limit is entered.  Nothing is said of the run without a limit if its rule has run out of
levels. -/
inductive Lockstep (limit : Nat) (p : Parser) (levels : Nat → Prop) :
    (wide narrow : Except Failure (α × List Token)) →
    (free guarded : Option (Except Diagnostic α × Parser)) → Prop
  | together {outcome : Except Failure (α × List Token)} {result : Except Diagnostic α} {q : Parser}
      (hdoes : (p.under (some limit)).Does levels outcome (some (result, q))) :
      Lockstep limit p levels outcome outcome (some (result, q.under none)) (some (result, q))
  /-- The run with the limit ends at `q`, and the other one goes on from there a level below. -/
  | parts {wide : Except Failure (α × List Token)}
      {free : Option (Except Diagnostic α × Parser)} {d : Diagnostic} {q : Parser} {level : Nat}
      (hdoes : (p.under (some limit)).Does levels
        (.error ⟨q.rest, .nestedTooDeeply⟩ : Except Failure (α × List Token)) (some (.error d, q)))
      (hlevel : limit < level) (hfree : ((q.under none).enter level).Does levels wide free) :
      Lockstep limit p levels wide (.error ⟨q.rest, .nestedTooDeeply⟩) free (some (.error d, q))
  | spent {rest : List Token} {failure : Failure}
      {free guarded : Option (Except Diagnostic α × Parser)}
      (hdoes : (p.under (some limit)).Does levels (.error failure) guarded) :
      Lockstep limit p levels (.error ⟨rest, .nestedTooDeeply⟩) (.error failure) free guarded

namespace Lockstep

variable {limit : Nat} {p : Parser} {levels : Nat → Prop}
  {wide narrow : Except Failure (α × List Token)}
  {free guarded : Option (Except Diagnostic α × Parser)}

/-- The run with the limit by itself. -/
theorem guarded_does (h : Lockstep limit p levels wide narrow free guarded) :
    (p.under (some limit)).Does levels narrow guarded := by
  cases h with
  | together hdoes => exact hdoes
  | parts hdoes _ _ => exact hdoes
  | spent hdoes => exact hdoes

/-- The run without a limit by itself. -/
theorem free_does (h : Lockstep limit p levels wide narrow free guarded) :
    (p.under none).Does levels wide free ∨ ∃ rest, wide = .error ⟨rest, .nestedTooDeeply⟩ := by
  cases h with
  | together hdoes => exact .inl hdoes.unlimited
  | @parts _ _ _ _ level hdoes _ hfree =>
    cases hdoes with
    | fails used log hrest _ _ =>
      exact .inl (hfree.behind used level (⟨level, _⟩ :: log) hrest fun e _ => nofun)
  | spent _ => exact .inr ⟨_, rfl⟩

/-- Runs that begin behind some tokens, when levels up to the limit have been entered already. -/
theorem behind (used : List Token) (level : Nat) (log : List Entry)
    (h : Lockstep limit (p.moved used.length level log) levels wide narrow free guarded)
    {rest : List Token} (hrest : p.rest = used ++ rest) (hlog : ∀ e ∈ log, e.level ≤ limit) :
    Lockstep limit p levels wide narrow free guarded := by
  have hallows : ∀ e ∈ log, (p.under (some limit)).Allows e.level :=
    fun e he => p.allows_under.mpr (hlog e he)
  cases h with
  | together hdoes => exact .together (hdoes.behind used level log hrest hallows)
  | parts hdoes hlevel hfree =>
    exact .parts (hdoes.behind used level log hrest hallows) hlevel hfree
  | spent hdoes => exact .spent (hdoes.behind used level log hrest hallows)

theorem backAt (h : Lockstep limit p levels wide narrow free guarded) {back : Nat}
    (hback : back ≤ limit) :
    Lockstep limit p (· = back) wide narrow (free.map (Routine.backAt back))
      (guarded.map (Routine.backAt back)) := by
  have hallows : (p.under (some limit)).Allows back := p.allows_under.mpr hback
  cases h with
  | together hdoes => exact .together (hdoes.backAt hallows)
  | @parts _ _ _ q _ hdoes hlevel hfree =>
    exact .parts (q := { q with depth := back }) (hdoes.backAt hallows) hlevel (hfree.backAt nofun)
  | spent hdoes => exact .spent (hdoes.backAt hallows)

end Lockstep

/-! ## Two runs of a routine -/

namespace Routine

/-- From the parser without a limit the routine does what the rule `wide` does, and from the parser
with the limit it does in lockstep what the rule `narrow` does. -/
def LockstepAt (limit : Nat) (p : Parser) (levels : Nat → Prop) (r : Routine α)
    (wide narrow : Rule α) : Prop :=
  Lockstep limit p levels (wide p.rest) (narrow p.rest) (r (p.under none))
    (r (p.under (some limit)))

/-- From wherever it is at the level, the routine does in lockstep what the rules do. -/
def Follows (limit level : Nat) (levels : Nat → Prop) (r : Routine α) (wide narrow : Rule α) :
    Prop :=
  ∀ p : Parser, p.AtToken → p.depth = level → LockstepAt limit p levels r wide narrow

variable {limit level : Nat} {levels later : Nat → Prop} {p : Parser} {r r' : Routine α}
  {wide narrow wide' narrow' : Rule α}

/-- The run with the limit is a run of the parser that has it. -/
theorem Follows.agrees (h : Follows limit level levels r wide narrow) :
    Agrees limit level levels r narrow := by
  intro p hat hlimit hdepth
  have hp : p.under (some limit) = p := by
    rw [← hlimit]
    rfl
  have hdoes := (h p hat hdepth).guarded_does
  rwa [hp] at hdoes

/-- Of a routine only what it does from the parser matters. -/
theorem LockstepAt.congr (h : LockstepAt limit p levels r' wide narrow)
    (hrun : ∀ n, r (p.under n) = r' (p.under n)) : LockstepAt limit p levels r wide narrow := by
  unfold LockstepAt
  rw [hrun, hrun]
  exact h

/-- Of the rules only what they do with the tokens matters. -/
theorem LockstepAt.of_eq (h : LockstepAt limit p levels r wide' narrow')
    (hwide : wide p.rest = wide' p.rest) (hnarrow : narrow p.rest = narrow' p.rest) :
    LockstepAt limit p levels r wide narrow := by
  unfold LockstepAt
  rw [hwide, hnarrow]
  exact h

/-! ## Sequences -/

/-- In a sequence the second part begins where the first has brought the parsers.  If they have
parted there, only the one without a limit goes on. -/
theorem LockstepAt.bind {f : α → Routine β} {g h : α → Rule β}
    (hr : LockstepAt limit p levels r wide narrow)
    (hf : ∀ a used rest reached log, p.rest = used ++ rest → levels reached →
      LockstepAt limit (p.moved used.length reached log) later (f a) (g a) (h a)) :
    LockstepAt limit p later (r >>= f) (wide >>= g) (narrow >>= h) := by
  have hlater : ∀ a used rest reached log, p.rest = used ++ rest → levels reached →
      Lockstep limit (p.moved used.length reached log) later (g a rest) (h a rest)
        (f a ((p.moved used.length reached log).under none))
        (f a ((p.moved used.length reached log).under (some limit))) := by
    intro a used rest reached log hrest hreached
    have hrun := hf a used rest reached log hrest hreached
    rwa [LockstepAt, Parser.rest_moved used hrest] at hrun
  unfold LockstepAt at hr ⊢
  rw [Rule.bind_apply, Rule.bind_apply, bind_apply, bind_apply]
  generalize wide p.rest = outcome, narrow p.rest = outcome', r (p.under none) = free,
    r (p.under (some limit)) = guarded at hr
  cases hr with
  | together hdoes =>
    cases hdoes with
    | @reads used log rest a reached hrest hreached hlog =>
      exact (hlater a used rest reached log hrest hreached).behind used reached log hrest
        fun e he => p.allows_under.mp (hlog e he)
    | fails used log hrest hlevel hlog => exact .together (.fails used log hrest hlevel hlog)
  | @parts _ _ d q level hdoes hlevel hfree =>
    have hrefused : (p.under (some limit)).Does later
        (.error ⟨q.rest, .nestedTooDeeply⟩ : Except Failure (β × List Token))
        (some (.error d, q)) :=
      hdoes.of_error
    cases hfree with
    | @reads us more rest a further hus hfurther hmore =>
      cases hdoes with
      | @fails used log _ reached hrest _ _ =>
        -- The parser with the limit has refused by now, so this is the other one by itself.
        have hall : p.rest = (used ++ us) ++ rest := by
          rw [List.append_assoc, ← hus]
          exact hrest
        have hend := (p.under none).enter_moved used us reached level further log more
        rcases (hlater a _ rest further _ hall hfurther).free_does with hlast | ⟨left, hspent⟩
        · exact .parts hrefused hlevel (Parser.Does.behind us further more (hend ▸ hlast) hus hmore)
        · dsimp only
          rw [hspent]
          exact .spent hrefused
    | fails us more hus hfurther hmore =>
      exact .parts hrefused hlevel (.fails us more hus hfurther hmore)
  | spent hdoes =>
    cases hdoes with
    | fails used log hrest hlevel hlog => exact .spent (.fails used log hrest hlevel hlog)

theorem Follows.bind {f : α → Routine β} {g h : α → Rule β}
    (hr : Follows limit level levels r wide narrow)
    (hf : ∀ a reached, levels reached → Follows limit reached later (f a) (g a) (h a)) :
    Follows limit level later (r >>= f) (wide >>= g) (narrow >>= h) := by
  intro p hat hdepth
  refine (hr p hat hdepth).bind ?_
  intro a used rest reached log hrest hreached
  exact hf a reached hreached _ (hat.moved used hrest reached log) rfl

theorem lockstepAt_pure (a : α) (h : levels p.depth) :
    LockstepAt limit p levels (pure a) (pure a) (pure a) :=
  .together (Parser.does_pure (p := p.under (some limit)) a h)

theorem follows_pure (a : α) (h : levels level) :
    Follows limit level levels (pure a) (pure a) (pure a) := by
  intro p _ hdepth
  exact lockstepAt_pure a (hdepth ▸ h)

/-- A result is the end of a routine that keeps the level. -/
theorem follows_result (a : α) : Follows limit level (· = level) (pure a) (pure a) (pure a) :=
  follows_pure a rfl

/-- At the end of a sequence the level is still what it was. -/
theorem Follows.map {f : α → β} (h : Follows limit level (· = level) r wide narrow) :
    Follows limit level (· = level) (r >>= fun a => pure (f a)) (f <$> wide) (f <$> narrow) := by
  rw [map_eq_pure_bind, map_eq_pure_bind]
  exact h.bind fun a reached hreached => follows_pure (f a) hreached

/-! ## Single tokens -/

theorem lockstepAt_refuse (hat : p.AtToken) {fault : SyntaxFault} (h : p.depth ≤ limit)
    (hwide : wide p.rest = .error ⟨p.rest, fault⟩)
    (hnarrow : narrow p.rest = .error ⟨p.rest, fault⟩) :
    LockstepAt limit p levels (refuse fault) wide narrow := by
  have hguarded : (p.under (some limit)).AtToken := hat
  have hfree : (p.under none).AtToken := hat
  have hdoes : (p.under (some limit)).Does levels _ ((refuse fault : Routine α) _) :=
    Parser.does_refuse hguarded fault (p.allows_under.mpr h)
  unfold LockstepAt
  rw [hwide, hnarrow, hfree.refuse]
  rw [hguarded.refuse] at hdoes ⊢
  exact .together hdoes

theorem lockstepAt_peek {f : Token → Routine α} (hat : p.AtToken)
    (h : LockstepAt limit p levels (f p.next) wide narrow) :
    LockstepAt limit p levels (peek >>= f) wide narrow :=
  h.congr fun n => peek_bind (p := p.under n) hat

/-- A token that is known to come next is gone past. -/
theorem LockstepAt.past {t : Token} {rest : List Token} (hrest : p.rest = t :: rest)
    (hrun : ∀ n, r (p.under n) = r' ((p.under n).moved 1 p.depth []))
    (hwide : wide p.rest = wide' rest) (hnarrow : narrow p.rest = narrow' rest)
    (h : LockstepAt limit (p.moved 1 p.depth []) levels r' wide' narrow') :
    LockstepAt limit p levels r wide narrow := by
  unfold LockstepAt at h ⊢
  rw [Parser.rest_past hrest] at h
  rw [hwide, hnarrow, hrun, hrun]
  exact h.behind [t] p.depth [] hrest (List.forall_mem_nil _)

theorem follows_refuse (fault : SyntaxFault) (h : level ≤ limit) :
    Follows limit level levels (refuse fault : Routine α) (Rule.fail fault) (Rule.fail fault) := by
  intro p hat hdepth
  exact lockstepAt_refuse hat (hdepth ▸ h) rfl rfl

theorem follows_eat? {f : Token → Option α} (hf : Ordinary f) :
    Follows limit level (· = level) (eat? f) (Rule.accept? f) (Rule.accept? f) := by
  intro p hat hdepth
  have hnone : f p.next = none → Rule.accept? f p.rest = .ok (none, p.rest) →
      LockstepAt limit p (· = level) (eat? f) (Rule.accept? f) (Rule.accept? f) := by
    intro hnext haccept
    have hrun : ∀ n, eat? f (p.under n) = some (.ok none, p.under n) :=
      fun n => eat?_of_none (p := p.under n) hat hnext
    exact ((lockstepAt_pure none hdepth).of_eq haccept haccept).congr hrun
  cases hrest : p.rest with
  | nil =>
    refine hnone (hf p.next (Parser.next_of_nil hrest).2) ?_
    rw [hrest, Rule.accept?_nil]
  | cons t rest =>
    have hnext := (Parser.next_of_cons hrest).1
    cases ht : f t with
    | none =>
      refine hnone (hnext ▸ ht) ?_
      rw [hrest, Rule.accept?_cons, ht]
      rfl
    | some a =>
      have hrun : ∀ n, eat? f (p.under n) =
          (pure (some a) : Routine (Option α)) ((p.under n).moved 1 p.depth []) :=
        fun n => eat?_of_cons (p := p.under n) hrest ht
      have haccept : Rule.accept? f p.rest = (pure (some a) : Rule (Option α)) rest := by
        rw [hrest, Rule.accept?_cons, ht]
        rfl
      exact .past hrest hrun haccept haccept (lockstepAt_pure (some a) hdepth)

theorem follows_expect {f : Token → Option α} (hf : Ordinary f) (what : Expectation)
    (h : level ≤ limit) :
    Follows limit level (· = level) (expect f what) (Rule.require f what)
      (Rule.require f what) := by
  rw [require_eq]
  refine (follows_eat? hf).bind ?_
  rintro (_ | a) reached rfl
  · exact follows_refuse _ h
  · exact follows_result a

theorem follows_kind {k : TokenKind} (hk : k ≠ .endOfInput) (h : level ≤ limit) :
    Follows limit level (· = level) (kind k) (Rule.kind k) (Rule.kind k) :=
  follows_expect (ordinary_lexemeOf? hk) _ h

theorem follows_keyword (k : Keyword) (h : level ≤ limit) :
    Follows limit level (· = level) (keyword k) (Rule.keyword k) (Rule.keyword k) :=
  follows_expect (ordinary_isKeyword? k) _ h

theorem follows_kind? {k : TokenKind} (hk : k ≠ .endOfInput) :
    Follows limit level (· = level) (kind? k) (Rule.kind? k) (Rule.kind? k) :=
  (follows_eat? (ordinary_lexemeOf? hk)).map

theorem follows_keyword? (k : Keyword) :
    Follows limit level (· = level) (keyword? k) (Rule.keyword? k) (Rule.keyword? k) :=
  (follows_eat? (ordinary_isKeyword? k)).map

/-! ## Lists -/

/-- Items behind commas, with a budget that is enough for all of them.  Behind a comma there is one
token less, and behind an item there are no more than in front of it. -/
theorem lockstepAt_moreItems {loop : List α → Routine (List α)}
    (hloop : ∀ read, loop read = do
      if ← kind? .comma then
        let a ← r
        loop (a :: read)
      else pure read.reverse)
    (hitem : Follows limit level (· = level) r wide narrow) {budget : List Token}
    (hat : p.AtToken) (hdepth : p.depth = level) (hbudget : p.rest.length ≤ budget.length)
    (read : List α) :
    LockstepAt limit p (· = level) (loop read) (Rule.moreItems wide budget read)
      (Rule.moreItems narrow budget read) := by
  induction budget generalizing p read with
  | nil =>
    have hnil : p.rest = [] := List.eq_nil_of_length_eq_zero (by simpa using hbudget)
    have hend : p.next.kind ≠ .comma := by
      rw [(Parser.next_of_nil hnil).2]
      decide
    exact (lockstepAt_pure read.reverse hdepth).congr fun n =>
      hloop read ▸ kind?_bind_of_ne (p := p.under n) hat hend
  | cons b budget ih =>
    by_cases hcomma : p.next.kind = .comma
    · obtain ⟨t, rest, hrest, ht⟩ := Parser.exists_rest_of_kind (by decide) hcomma
      have hrule : ∀ rule : Rule α, Rule.moreItems rule (b :: budget) read p.rest =
          (rule >>= fun a => Rule.moreItems rule budget (a :: read)) rest := by
        intro rule
        rw [hrest, Rule.moreItems_of_comma ht]
      have hbehind : (p.moved 1 p.depth []).AtToken := hat.moved [t] hrest p.depth []
      refine .past hrest (fun n => hloop read ▸ kind?_bind_of_cons (p := p.under n) hrest ht)
        (hrule wide) (hrule narrow) ?_
      refine (hitem _ hbehind hdepth).bind ?_
      rintro a used left reached log hused rfl
      refine ih (hbehind.moved used hused reached log) rfl ?_ (a :: read)
      have hcount := congrArg List.length hused
      rw [Parser.rest_past hrest, List.length_append] at hcount
      rw [hrest, List.length_cons, List.length_cons] at hbudget
      rw [Parser.rest_moved used hused]
      omega
    · have hrule : ∀ rule : Rule α, Rule.moreItems rule (b :: budget) read p.rest =
          (pure read.reverse : Rule (List α)) p.rest :=
        fun rule => Rule.moreItems_of_refused (Parser.refused_of_kind hcomma)
      refine ((lockstepAt_pure read.reverse hdepth).of_eq (hrule wide) (hrule narrow)).congr ?_
      exact fun n => hloop read ▸ kind?_bind_of_ne (p := p.under n) hat hcomma

/-! ## Levels -/

theorem follows_depth {f : Nat → Routine α} (h : Follows limit level levels (f level) wide narrow) :
    Follows limit level levels (depth >>= f) wide narrow := by
  intro p hat hdepth
  subst hdepth
  exact h p hat rfl

/-- The level that has been reached does not matter behind the phrase. -/
theorem Follows.restore {back : Nat} (h : Follows limit level levels r wide narrow) :
    Follows limit level (· = back) (do
      let a ← r
      setDepth back
      pure a) wide narrow := by
  rw [← bind_pure wide, ← bind_pure narrow]
  refine h.bind ?_
  intro a reached _ p _ _
  have hdoes : (p.under (some limit)).Does (· = back) (.ok (a, p.rest))
      (some (.ok a, (p.under (some limit)).moved 0 back [])) :=
    .reads [] [] rfl rfl (List.forall_mem_nil _)
  exact .together hdoes

theorem Follows.backAt {back : Nat} (hback : back ≤ limit)
    (h : Follows limit level levels r wide narrow) :
    Follows limit level (· = back) (fun p => backAt back <$> r p) wide narrow := by
  intro p hat hdepth
  exact (h p hat hdepth).backAt hback

theorem descend_free (p : Parser) :
    descend (p.under none) = some (.ok (), (p.under none).enter (p.depth + 1)) :=
  rfl

theorem descend_guarded (h : p.depth < limit) :
    descend (p.under (some limit)) = some (.ok (), (p.under (some limit)).enter (p.depth + 1)) := by
  have hguard : ¬ (some limit).any (· ≤ p.depth) = true := by simpa using h
  show (if (some limit).any (· ≤ p.depth) then _ else _ : Routine Unit) _ = _
  rw [if_neg hguard]
  rfl

theorem descend_refused (h : p.depth = limit) :
    descend (p.under (some limit)) =
      (refuse .nestedTooDeeply : Routine Unit) (p.under (some limit)) := by
  have hguard : (some limit).any (· ≤ p.depth) = true := by simp [h]
  show (if (some limit).any (· ≤ p.depth) then _ else _ : Routine Unit) _ = _
  rw [if_pos hguard]

theorem follows_descend {f : Unit → Routine α} (hlevel : level < limit)
    (h : Follows limit (level + 1) levels (f ()) wide narrow) :
    Follows limit level levels (descend >>= f) wide narrow := by
  intro p hat hdepth
  subst hdepth
  have hrun := h (p.enter (p.depth + 1)) hat rfl
  unfold LockstepAt
  rw [bind_apply, bind_apply, descend_free, descend_guarded hlevel]
  exact hrun.behind [] (p.depth + 1) [⟨p.depth + 1, p.current⟩] rfl
    (List.forall_mem_singleton.mpr hlevel)

/-- At the limit the parser that has it refuses. -/
theorem descend_bind_refused (f : Unit → Routine α) (levels : Nat → Prop) (hat : p.AtToken)
    (h : p.depth = limit) :
    ∃ d, (descend >>= f) (p.under (some limit)) = some (.error d, p.under (some limit)) ∧
      (p.under (some limit)).Does levels
        (.error ⟨p.rest, .nestedTooDeeply⟩ : Except Failure (α × List Token))
        (some (.error d, p.under (some limit))) := by
  have hguarded : (p.under (some limit)).AtToken := hat
  have hdoes : (p.under (some limit)).Does levels _
      ((refuse .nestedTooDeeply : Routine α) (p.under (some limit))) :=
    Parser.does_refuse hguarded .nestedTooDeeply (p.allows_under.mpr (Nat.le_of_eq h))
  rw [hguarded.refuse] at hdoes
  refine ⟨_, ?_, hdoes⟩
  rw [bind_apply, descend_refused h, hguarded.refuse]

/-- At the limit only the parser without one goes on.  It does below it what the rules do. -/
theorem follows_descend_limit {deepest : Nat} {f : Unit → Routine α}
    (h : Follows deepest (limit + 1) levels (f ()) wide narrow) :
    Follows limit limit levels (descend >>= f) wide (Rule.fail .nestedTooDeeply) := by
  intro p hat hdepth
  obtain ⟨d, hrun, hdoes⟩ := descend_bind_refused f levels hat hdepth
  unfold LockstepAt
  rw [hrun, bind_apply, descend_free]
  rcases (h (p.enter (limit + 1)) hat rfl).free_does with hfree | ⟨rest, hspent⟩
  · subst hdepth
    exact .parts (q := p.under (some p.depth)) hdoes (Nat.lt_succ_self p.depth) hfree
  · have hleft : wide p.rest = .error ⟨rest, .nestedTooDeeply⟩ := hspent
    rw [hleft]
    exact .spent hdoes

/-- Rules without any levels refuse as the parser with the limit does. -/
theorem follows_descend_last {f : Unit → Routine α} :
    Follows limit limit levels (descend >>= f) (Rule.fail .nestedTooDeeply)
      (Rule.fail .nestedTooDeeply) := by
  intro p hat hdepth
  obtain ⟨d, hrun, hdoes⟩ := descend_bind_refused f levels hat hdepth
  unfold LockstepAt
  rw [hrun]
  exact .spent hdoes

end Routine

end SqlForest
