import SqlForest.Token

/-!
# Token streams

What the grammar reads: the tokens of a text and, behind them, one token that marks the end.
-/

namespace SqlForest

/-- The tokens of a text, closed by a token that marks the end of input. -/
structure TokenStream where
  tokens : List Token
  finish : Token
  kind_ne_endOfInput : ∀ t ∈ tokens, t.kind ≠ .endOfInput
  finish_kind : finish.kind = .endOfInput

namespace TokenStream

/-- All tokens in order, the closing one included. -/
def toList (s : TokenStream) : List Token :=
  s.tokens ++ [s.finish]

/-- The stream of a list whose last token, and no other, marks the end of input. -/
def ofList? (tokens : List Token) : Option TokenStream :=
  match tokens.getLast? with
  | none => none
  | some finish =>
    if h : (∀ t ∈ tokens.dropLast, t.kind ≠ .endOfInput) ∧ finish.kind = .endOfInput then
      some ⟨tokens.dropLast, finish, h.1, h.2⟩
    else none

/-- What `ofList?` asks of a list of tokens. -/
def requirement : String :=
  "token sequence must be terminated by a single end-of-input token"

/-- Reading the list of a stream gives the stream back. -/
theorem ofList?_toList (s : TokenStream) : ofList? s.toList = some s := by
  simp [ofList?, toList, s.finish_kind]
  exact s.kind_ne_endOfInput

/-- A stream is read from no list but its own. -/
theorem toList_of_ofList? {tokens : List Token} {s : TokenStream} (h : ofList? tokens = some s) :
    s.toList = tokens := by
  unfold ofList? at h
  split at h
  · simp at h
  · rename_i finish hlast
    obtain ⟨front, rfl⟩ := List.getLast?_eq_some_iff.mp hlast
    split at h
    · obtain rfl := Option.some.inj h
      simp [toList]
    · simp at h

end TokenStream

end SqlForest
