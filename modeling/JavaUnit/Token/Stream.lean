/-
Module: JavaUnit.Token.Stream
Purpose: A named source text with its tokens, and the places of tokens in it. A place is the list
  of the tokens that are left there, a suffix of all of them; its byte offset, index, line and
  column are read off that suffix.
Main exports: TokenStream, TokenStream.ofSource, TokenStream.places, TokenStream.offset,
  TokenStream.index, Span
-/
import JavaUnit.Token.Lex

namespace JavaUnit

/-- A stretch of source text in bytes. -/
structure Span where
  offset : Nat
  length : Nat
deriving DecidableEq, Repr

/-- A source text cut into tokens. The name is for diagnostics only. -/
structure TokenStream where
  name : Text
  source : Text
  tokens : List Token
deriving Repr

/-- The token at the head of a list; the end of the input once none is left. -/
def currentToken (tokens : List Token) : Token :=
  tokens.head?.getD Token.endOfInput

/-- The text of a list of tokens. -/
def textOf (tokens : List Token) : Text :=
  tokens.flatMap Token.text

/-- Tokens in a row with the byte offsets of their two ends, the first of which begins at
`start`. -/
def placesFrom (start : Nat) : List Token → List (Token × Nat × Nat)
  | [] => []
  | token :: rest =>
    let stop := start + token.text.bytes
    (token, start, stop) :: placesFrom stop rest

/-- Placing tokens leaves them as they are. -/
theorem map_fst_placesFrom (start : Nat) (tokens : List Token) :
    (placesFrom start tokens).map (·.1) = tokens := by
  induction tokens generalizing start with
  | nil => rfl
  | cons token rest ih => simp [placesFrom, ih]

/-- Cutting a text into tokens loses nothing: their texts in a row are the text. -/
theorem textOf_of_lex {source : Text} {tokens : List Token} (h : lex source = .ok tokens) :
    textOf tokens = source := by
  fun_induction lex source generalizing tokens with
  | case1 =>
    cases h
    rfl
  | case2 first rest kind more _ ih =>
    cases hl : lex (rest.drop more) with
    | error fault => simp [hl, Except.map] at h
    | ok later =>
      simp only [hl, Except.map, Except.ok.injEq] at h
      subst h
      have tail : textOf later = rest.drop more := ih hl
      simp only [textOf, List.flatMap_cons] at tail ⊢
      rw [tail]
      simp
  | case3 => cases h

/-- Where an unterminated lexeme stands in the text that it makes unreadable. -/
def Unterminated.span (fault : Unterminated) (source : Text) : Span where
  offset := source.bytes - fault.rest.bytes
  length := Text.bytes (fault.rest.take fault.length)

namespace TokenStream

/-- Cuts a source text into tokens. -/
def ofSource (name source : Text) : Except Unterminated TokenStream :=
  (lex source).map fun tokens => { name, source, tokens }

/-- The tokens from a given index on. -/
def startingAt (stream : TokenStream) (index : Nat) : List Token :=
  stream.tokens.drop index

/-- The index of the first of the tokens that are left. -/
def index (stream : TokenStream) (left : List Token) : Nat :=
  stream.tokens.length - left.length

/-- The byte offset of the first of the tokens that are left. Past the last token there is no
place, and its offset counts as the start of the text. -/
def offset (stream : TokenStream) (left : List Token) : Nat :=
  if left.isEmpty then 0 else stream.source.bytes - (textOf left).bytes

/-- The byte offset of the end of the first of the tokens that are left. -/
def endOffset (stream : TokenStream) (left : List Token) : Nat :=
  stream.offset left + (currentToken left).text.bytes

/-- The stretch from the first token of `start` to the end of the first token of `stop`. -/
def span (stream : TokenStream) (start stop : List Token) : Span where
  offset := stream.offset start
  length := max (stream.endOffset stop) (stream.offset start) - stream.offset start

/-- Whether the stream holds nothing but the end of the input. -/
def isEmpty (stream : TokenStream) : Bool :=
  stream.tokens.length ≤ 1

/-- The tokens in order, each with the byte offsets of its two ends. -/
def places (stream : TokenStream) : List (Token × Nat × Nat) :=
  placesFrom 0 stream.tokens

/-- The token at an index with the byte offsets of its two ends. -/
def get? (stream : TokenStream) (index : Nat) : Option (Token × Nat × Nat) :=
  stream.places[index]?

end TokenStream

end JavaUnit
