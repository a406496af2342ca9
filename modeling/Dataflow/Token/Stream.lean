import Dataflow.Limits.Basic
import Dataflow.SyntaxError
import Dataflow.Token.Word

/-!
# Limited tokenization

A token stream hands out the tokens of a source one at a time.  A source with
too many bytes has no stream.  Once as many tokens as allowed have been handed
out, every further word is refused, and a refused word is used up all the same.
`lex` takes all tokens of a source from its stream.
-/

namespace Dataflow

structure TokenStream where
  /-- The text not yet read. -/
  rest : List Char
  /-- How many tokens may still be handed out. -/
  left : Nat
  /-- How many tokens could be handed out at first. -/
  limit : Nat

namespace TokenStream

/-- The stream of a source that is not too large. -/
def ofSource (limits : Limits) (source : String) : Except SyntaxError TokenStream :=
  if limits.inputSize < source.utf8ByteSize then
    .error (.inputTooLarge source.utf8ByteSize limits.inputSize)
  else
    .ok ⟨source.toList, limits.tokenCount, limits.tokenCount⟩

/-- The answer to one call, which is no token when the source is used up, and
the stream after it. -/
def next (stream : TokenStream) : Except SyntaxError (Option Token) × TokenStream :=
  match nextWord? stream.rest with
  | none => (.ok none, stream)
  | some (word, rest) =>
    match stream.left with
    | 0 => (.error (.tooManyTokens stream.limit), { stream with rest })
    | left + 1 => (.ok (some (Token.ofWord word)), { stream with rest, left })

/-- The answers to so many calls in a row, whatever they are. -/
def answers : Nat → TokenStream → List (Except SyntaxError (Option Token))
  | 0, _ => []
  | count + 1, stream => stream.next.1 :: answers count stream.next.2

theorem length_rest_lt_of_next {stream after : TokenStream} {token : Token}
    (hnext : stream.next = (.ok (some token), after)) :
    after.rest.length < stream.rest.length := by
  unfold next at hnext
  split at hnext
  · simp at hnext
  · next word rest hword =>
    have hlt := length_lt_of_nextWord? hword
    split at hnext
    · simp at hnext
    · obtain ⟨-, rfl⟩ := Prod.mk.inj hnext
      exact hlt

/-- All tokens of a stream, after those already taken, which are in reverse
order. -/
def drainOnto (taken : List Token) (stream : TokenStream) :
    Except SyntaxError (List Token) :=
  match _hnext : stream.next with
  | (.error error, _) => .error error
  | (.ok none, _) => .ok taken.reverse
  | (.ok (some token), after) => drainOnto (token :: taken) after
termination_by stream.rest.length
decreasing_by exact length_rest_lt_of_next _hnext

end TokenStream

/-- The tokens of a source within the limits. -/
def lex (limits : Limits) (source : String) : Except SyntaxError (List Token) :=
  match TokenStream.ofSource limits source with
  | .error error => .error error
  | .ok stream => stream.drainOnto []

end Dataflow
