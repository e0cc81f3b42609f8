import SqlForest.Proofs.Token.Lexeme

/-!
# Telling texts apart

When texts stand one behind the other it must be told where each of them ends.  What is written for
two values is told apart (`ToldApart`) if, whatever stands behind it, neither text is taken for the
other.  Runs of one class of characters are told apart by what ends them (`run_append_inj`), and
lists are told apart if their items are and what stands behind them is neither a separator nor the
beginning of an item (`intercalate_append_inj`).
-/

namespace SqlForest

/-! ## Runs -/

section Runs

variable {goesOn : Char → Bool} {us vs x y : List Char}

theorem run_append_inj (hus : us.all goesOn) (hvs : vs.all goesOn)
    (hx : x.head?.any goesOn = false) (hy : y.head?.any goesOn = false)
    (h : us ++ x = vs ++ y) : us = vs ∧ x = y := by
  have htake := congrArg (List.takeWhile goesOn) h
  have hdrop := congrArg (List.dropWhile goesOn) h
  rw [takeWhile_append_of_ends hus hx, takeWhile_append_of_ends hvs hy] at htake
  rw [dropWhile_append_of_ends hus hx, dropWhile_append_of_ends hvs hy] at hdrop
  exact ⟨htake, hdrop⟩

/-- A character that does not occur in a text ends it. -/
theorem append_mark_inj {mark : Char} (hus : mark ∉ us) (hvs : mark ∉ vs)
    (h : us ++ mark :: x = vs ++ mark :: y) : us = vs ∧ x = y := by
  have hrun : ∀ {ws : List Char}, mark ∉ ws → ws.all fun c => c ≠ mark := by
    intro ws hws
    rw [List.all_eq_true]
    intro c hc
    refine decide_eq_true ?_
    rintro rfl
    exact hws hc
  have hend : ∀ z : List Char, (mark :: z).head?.any (fun c => decide (c ≠ mark)) = false := by
    intro z
    exact decide_eq_false (not_not_intro rfl)
  obtain ⟨heq, hmark⟩ := run_append_inj (hrun hus) (hrun hvs) (hend x) (hend y) h
  exact ⟨heq, (List.cons.inj hmark).2⟩

end Runs

/-! ## Lists -/

section Lists

variable {α : Type}

/-- What is written for two values is told apart in front of anything that meets `stop`. -/
def ToldApart (stop : List Char → Prop) (code : α → List Char) (a b : α) : Prop :=
  ∀ x y, stop x → stop y → code a ++ x = code b ++ y → a = b ∧ x = y

/-- Behind the first item there is a separator in front of each other one. -/
theorem intercalate_cons (sep first : List Char) (items : List (List Char)) :
    sep.intercalate (first :: items) = first ++ items.flatMap (sep ++ ·) := by
  induction items generalizing first with
  | nil => rw [List.intercalate_singleton, List.flatMap_nil, List.append_nil]
  | cons item items ih =>
    rw [List.intercalate_cons_cons, ih, List.flatMap_cons, List.append_assoc, List.append_assoc]

variable {stop : List Char → Prop} {code : α → List Char} {c : Char} {sep : List Char}
  {as bs : List α} {x y : List Char}

/-- What stands behind items begins neither with a separator nor with one of them. -/
structure Closes (stop : List Char → Prop) (code : α → List Char) (c : Char) (items : List α)
    (z : List Char) : Prop where
  stops : stop z
  noSeparator : z.head? ≠ some c
  noItem : ∀ a ∈ items, (code a).head?.any fun d => z.head? ≠ some d

theorem Closes.tail {a : α} (h : Closes stop code c (a :: as) x) : Closes stop code c as x :=
  ⟨h.stops, h.noSeparator, fun b hb => h.noItem b (List.mem_cons_of_mem a hb)⟩

theorem Closes.ne_item {a : α} (h : Closes stop code c (a :: as) x) (z : List Char) :
    x ≠ code a ++ z := by
  intro heq
  have hopen := h.noItem a List.mem_cons_self
  cases ha : code a with
  | nil =>
    rw [ha] at hopen
    cases hopen
  | cons d rest =>
    rw [heq, ha] at hopen
    simp at hopen

theorem Closes.ne_separator (h : Closes stop code c as x) (z : List Char) :
    x ≠ c :: sep ++ z := by
  intro heq
  have hhead := h.noSeparator
  rw [heq] at hhead
  exact hhead rfl

/-- Items behind the first one are told apart, each with a separator in front of it. -/
theorem flatMap_append_inj (happart : ∀ a ∈ as, ∀ b ∈ bs, ToldApart stop code a b)
    (hsep : ∀ z, stop (c :: sep ++ z)) (hx : Closes stop code c bs x)
    (hy : Closes stop code c as y)
    (h : (as.map code).flatMap (c :: sep ++ ·) ++ x = (bs.map code).flatMap (c :: sep ++ ·) ++ y) :
    as = bs ∧ x = y := by
  have hstop : ∀ {es : List α} {z : List Char}, stop z →
      stop ((es.map code).flatMap (c :: sep ++ ·) ++ z) := by
    intro es z hz
    cases es with
    | nil => exact hz
    | cons e es =>
      rw [List.map_cons, List.flatMap_cons, List.append_assoc, List.append_assoc]
      exact hsep _
  induction as generalizing bs with
  | nil =>
    cases bs with
    | nil => exact ⟨rfl, h⟩
    | cons b bs =>
      rw [List.map_cons, List.flatMap_cons, List.append_assoc, List.append_assoc] at h
      exact absurd h (hx.ne_separator _)
  | cons a as ih =>
    cases bs with
    | nil =>
      rw [List.map_cons, List.flatMap_cons, List.append_assoc, List.append_assoc] at h
      exact absurd h.symm (hy.ne_separator _)
    | cons b bs =>
      simp only [List.map_cons, List.flatMap_cons, List.append_assoc] at h
      obtain ⟨rfl, hlater⟩ := happart a List.mem_cons_self b List.mem_cons_self _ _
        (hstop hx.stops) (hstop hy.stops) (List.append_cancel_left h)
      have hmore : ∀ a' ∈ as, ∀ b' ∈ bs, ToldApart stop code a' b' := fun a' ha b' hb =>
        happart a' (List.mem_cons_of_mem a ha) b' (List.mem_cons_of_mem a hb)
      obtain ⟨rfl, hrest⟩ := ih hmore hx.tail hy.tail hlater
      exact ⟨rfl, hrest⟩

/-- Lists with separators between their items are told apart if the items are. -/
theorem intercalate_append_inj (happart : ∀ a ∈ as, ∀ b ∈ bs, ToldApart stop code a b)
    (hsep : ∀ z, stop (c :: sep ++ z)) (hx : Closes stop code c bs x)
    (hy : Closes stop code c as y)
    (h : (c :: sep).intercalate (as.map code) ++ x = (c :: sep).intercalate (bs.map code) ++ y) :
    as = bs ∧ x = y := by
  -- With a separator in front of the first item as well all items are treated alike.
  cases as with
  | nil =>
    cases bs with
    | nil => exact ⟨rfl, h⟩
    | cons b bs =>
      rw [List.map_cons, intercalate_cons, List.append_assoc] at h
      exact absurd h (hx.ne_item _)
  | cons a as =>
    cases bs with
    | nil =>
      rw [List.map_cons, intercalate_cons, List.append_assoc] at h
      exact absurd h.symm (hy.ne_item _)
    | cons b bs =>
      refine flatMap_append_inj happart hsep hx hy ?_
      rw [List.map_cons, List.map_cons, intercalate_cons, intercalate_cons] at h
      simp only [List.map_cons, List.flatMap_cons, List.append_assoc] at h ⊢
      rw [h]

end Lists

end SqlForest
