import Dataflow.Proofs.Cursor.Scan
import Dataflow.Proofs.Mark

/-!
# What a scan yields

A scan is told by a reader of lists: given the tokens that the cursor has before it, the
reader has the outcome of the scan, and the tokens that the cursor has before it
afterwards.  Such a scan ends, its cursor stays in its statement and does not go back,
every call that it makes keeps to what its method promises, and none of them has failed
unless the scan has.  The rules below follow the way scans are put together.
-/

namespace Dataflow

/-- What a call of a method that ends with `answer` promises of the tokens that the
cursor has before it: a component that is not there takes none of them, a nested part
takes at least one, and a statement takes all. -/
def Method.Leaves : Method → Answer → List Token → List Token → Prop
  | .config, .nothing, before, after => after = before
  | .config, .value, before, after => after.length < before.length
  | .key, .value, before, after => after.length < before.length
  | .map, .value, before, after => after.length < before.length
  | .flow, .value, before, after => after.length < before.length
  | .statement, .value, _, after => after = []
  | _, _, _, _ => True

/-- A call that fails promises nothing. -/
theorem Method.leaves_fault (method : Method) (before after : List Token) :
    method.Leaves .fault before after := by
  cases method <;> trivial

/-- A call keeps to its statement, its method and the nesting limit. -/
structure Call.Sound (limit : Nat) (tokens : List Token) (call : Call) : Prop where
  before_within : call.before.Within tokens
  after_within : call.after.Within tokens
  moves : call.before.Moves call.after
  depth_le : ∀ depth ∈ call.depth, depth ≤ limit
  depth_lt : call.answer ≠ .fault → ∀ depth ∈ call.depth, depth < limit
  leaves : call.method.Leaves call.answer (call.before.rest tokens) (call.after.rest tokens)

namespace Call.Sound

variable {limit : Nat} {tokens : List Token} {call : Call}

/-- A component that is not there leaves the cursor where it was. -/
theorem after_eq_before (hsound : call.Sound limit tokens) (hmethod : call.method = .config)
    (hanswer : call.answer = .nothing) : call.after = call.before := by
  have hleaves := hsound.leaves
  rw [hmethod, hanswer] at hleaves
  exact hsound.moves.eq_of_rest_eq hsound.before_within hsound.after_within hleaves

/-- A part that is read moves the cursor forward. -/
theorem before_lt_after (hsound : call.Sound limit tokens)
    (hmethod : call.method ∈ [.key, .map, .flow, .config]) (hanswer : call.answer = .value) :
    call.before.current < call.after.current := by
  refine hsound.moves.lt_of_length_lt hsound.before_within hsound.after_within ?_
  have hleaves := hsound.leaves
  rw [hanswer] at hleaves
  simp only [List.mem_cons, List.not_mem_nil, or_false] at hmethod
  rcases hmethod with hmethod | hmethod | hmethod | hmethod <;> rwa [hmethod] at hleaves

/-- A statement that is read leaves the cursor at its end. -/
theorem after_eq_stop (hsound : call.Sound limit tokens) (hmethod : call.method = .statement)
    (hanswer : call.answer = .value) : call.after.current = call.after.stop := by
  have hleaves := hsound.leaves
  rw [hmethod, hanswer] at hleaves
  exact hsound.after_within.current_eq_stop hleaves

end Call.Sound

/-- No call has failed. -/
def Scanner.Clean (scanner : Scanner) : Prop :=
  ∀ call ∈ scanner.calls, call.answer ≠ .fault

/-- The cursor is in its statement with `rest` before it, after calls that were sound. -/
structure Scanner.Sees (limit : Nat) (tokens : List Token) (scanner : Scanner)
    (rest : List Token) : Prop where
  within : scanner.cursor.Within tokens
  rest_eq : scanner.cursor.rest tokens = rest
  sound : ∀ call ∈ scanner.calls, call.Sound limit tokens

/-- The cursor has moved on, and the calls that had ended before are still recorded. -/
structure Scanner.Leads (before after : Scanner) : Prop where
  moves : before.cursor.Moves after.cursor
  calls : before.calls <:+ after.calls

theorem Scanner.Leads.refl (scanner : Scanner) : scanner.Leads scanner :=
  ⟨.refl _, List.suffix_rfl⟩

theorem Scanner.Leads.trans {first second third : Scanner} (hfirst : first.Leads second)
    (hsecond : second.Leads third) : first.Leads third :=
  ⟨hfirst.moves.trans hsecond.moves, hfirst.calls.trans hsecond.calls⟩

theorem Scanner.Leads.note {before after : Scanner} (hleads : before.Leads after)
    (call : Call) : before.Leads (after.note call) :=
  ⟨hleads.moves, hleads.calls.trans (List.suffix_cons call after.calls)⟩

theorem Scanner.Sees.note {limit : Nat} {tokens rest : List Token} {scanner : Scanner}
    {call : Call} (hsees : scanner.Sees limit tokens rest) (hcall : call.Sound limit tokens) :
    (scanner.note call).Sees limit tokens rest where
  within := hsees.within
  rest_eq := hsees.rest_eq
  sound := List.forall_mem_cons.mpr ⟨hcall, hsees.sound⟩

theorem Scanner.Sees.left_eq {limit : Nat} {tokens rest : List Token} {scanner : Scanner}
    (hsees : scanner.Sees limit tokens rest) : scanner.left = rest.length := by
  rw [Scanner.left, ← hsees.within.length_rest, hsees.rest_eq]

theorem Scanner.Clean.note {scanner : Scanner} {call : Call} (hclean : scanner.Clean)
    (hcall : call.answer ≠ .fault) : (scanner.note call).Clean :=
  List.forall_mem_cons.mpr ⟨hcall, hclean⟩

namespace Scan

variable {limit : Nat} {tokens : List Token}

/-- From this state the scan ends as `result` says. -/
def Yields {α : Type} (limit : Nat) (tokens : List Token) (scan : Scan Fault α)
    (scanner : Scanner) : Except Fault (α × List Token) → Prop
  | .error fault => ∃ after rest, scan scanner = some (.error fault, after) ∧
      scanner.Leads after ∧ after.Sees limit tokens rest
  | .ok (value, rest) => ∃ after, scan scanner = some (.ok value, after) ∧
      scanner.Leads after ∧ after.Sees limit tokens rest ∧
        (scanner.Clean → after.Clean)

/-- The scan yields what the reader reads, whatever the cursor has before it. -/
def Follows {α : Type} (limit : Nat) (tokens : List Token) (scan : Scan Fault α)
    (read : List Token → Except Fault (α × List Token)) : Prop :=
  ∀ {scanner : Scanner} {rest : List Token}, scanner.Sees limit tokens rest →
    Yields limit tokens scan scanner (read rest)

section Rules

variable {ε α β σ : Type} {scanner : Scanner} {rest : List Token}

theorem Yields.pure (hsees : scanner.Sees limit tokens rest) (value : α) :
    Yields limit tokens (pure value) scanner (.ok (value, rest)) :=
  ⟨scanner, rfl, .refl _, hsees, id⟩

theorem Yields.throw (hsees : scanner.Sees limit tokens rest) (fault : Fault) :
    Yields limit tokens (throw fault : Scan Fault α) scanner (.error fault) :=
  ⟨scanner, rest, rfl, .refl _, hsees⟩

theorem Yields.bind_error {scan : Scan Fault α} {fault : Fault} {next : α → Scan Fault β}
    (hscan : Yields limit tokens scan scanner (.error fault)) :
    Yields limit tokens (scan >>= next) scanner (.error fault) := by
  obtain ⟨after, left, hscan, hleads, hsees⟩ := hscan
  exact ⟨after, left, bind_eq_of_error hscan next, hleads, hsees⟩

theorem Yields.bind_ok {scan : Scan Fault α} {value : α} {next : α → Scan Fault β}
    {result : Except Fault (β × List Token)}
    (hscan : Yields limit tokens scan scanner (.ok (value, rest)))
    (hnext : ∀ after : Scanner, after.Sees limit tokens rest →
      Yields limit tokens (next value) after result) :
    Yields limit tokens (scan >>= next) scanner result := by
  obtain ⟨middle, hscan, hfirst, hsees, hclean⟩ := hscan
  have hnext := hnext middle hsees
  cases result with
  | error fault =>
      obtain ⟨after, left, hnext, hsecond, hafter⟩ := hnext
      exact ⟨after, left, (bind_eq_of_ok hscan next).trans hnext, hfirst.trans hsecond, hafter⟩
  | ok result =>
      obtain ⟨after, hnext, hsecond, hafter, hagain⟩ := hnext
      exact ⟨after, (bind_eq_of_ok hscan next).trans hnext, hfirst.trans hsecond, hafter,
        hagain ∘ hclean⟩

/-- What follows a scan is only asked where the scan has a value. -/
theorem Yields.bind_cases {scan : Scan Fault α} {next : α → Scan Fault β}
    {result : Except Fault (α × List Token)} {later : Except Fault (β × List Token)}
    (hscan : Yields limit tokens scan scanner result)
    (herror : ∀ fault, result = .error fault → later = .error fault)
    (hnext : ∀ value left (after : Scanner), result = .ok (value, left) →
      after.Sees limit tokens left → Yields limit tokens (next value) after later) :
    Yields limit tokens (scan >>= next) scanner later := by
  cases result with
  | error fault =>
      rw [herror fault rfl]
      exact hscan.bind_error
  | ok result => exact hscan.bind_ok fun after hafter => hnext _ _ after rfl hafter

/-- One scan after another yields what one reader after another reads. -/
theorem Yields.bind {scan : Scan Fault α} {next : α → Scan Fault β}
    {result : Except Fault (α × List Token)}
    {read : α × List Token → Except Fault (β × List Token)}
    (hscan : Yields limit tokens scan scanner result)
    (hnext : ∀ value left (after : Scanner), result = .ok (value, left) →
      after.Sees limit tokens left → Yields limit tokens (next value) after (read (value, left))) :
    Yields limit tokens (scan >>= next) scanner (result >>= read) := by
  refine hscan.bind_cases (fun fault hresult => ?_) fun value left after hresult hafter => ?_
  · rw [hresult]
    rfl
  · rw [hresult]
    exact hnext value left after hresult hafter

theorem Follows.yields {scan : Scan Fault α}
    {read : List Token → Except Fault (α × List Token)}
    {result : Except Fault (α × List Token)} (hscan : Follows limit tokens scan read)
    (hsees : scanner.Sees limit tokens rest) (hread : read rest = result) :
    Yields limit tokens scan scanner result := by
  rw [← hread]
  exact hscan hsees

/-- A scan that ends with a value had it from the reader. -/
theorem Yields.eq_ok_of_eq {scan : Scan Fault α} {value : α} {after : Scanner}
    {result : Except Fault (α × List Token)} (hyields : Yields limit tokens scan scanner result)
    (hscan : scan scanner = some (.ok value, after)) :
    result = .ok (value, after.cursor.rest tokens) := by
  cases result with
  | error fault =>
      obtain ⟨other, left, hother, -⟩ := hyields
      rw [hscan] at hother
      cases hother
  | ok result =>
      obtain ⟨other, hother, -, hsees, -⟩ := hyields
      rw [hscan] at hother
      cases hother
      rw [hsees.rest_eq]

/-! ### Loops -/

theorem Yields.of_eq {scan other : Scan Fault α} {result : Except Fault (α × List Token)}
    (heq : scan scanner = other scanner) (hother : Yields limit tokens other scanner result) :
    Yields limit tokens scan scanner result := by
  cases result with
  | error fault => rwa [Yields, heq]
  | ok result => rwa [Yields, heq]

section Loops

variable {round : σ → Scan Fault (Round σ α)} {state later : σ} {next : α → Scan Fault β}
variable {result : Except Fault (β × List Token)}

/-- A loop yields what its first round and what follows it yield. -/
theorem Yields.unroll
    (hround : Yields limit tokens (round state >>= fun ended =>
      afterRound Scanner.left round scanner ended >>= next) scanner result) :
    Yields limit tokens (loop Scanner.left round state >>= next) scanner result := by
  refine .of_eq (bind_congr (loop_eq Scanner.left round state scanner) next) ?_
  rwa [bind_assoc]

/-- After a round that has taken a token the loop goes on. -/
theorem Yields.again {before after : Scanner} (hleft : after.left < before.left)
    (hlater : Yields limit tokens (loop Scanner.left round later >>= next) after result) :
    Yields limit tokens (afterRound Scanner.left round before (.again later) >>= next) after
      result :=
  .of_eq (bind_congr (afterRound_again hleft round later) next) hlater

theorem Yields.loop_error {fault : Fault}
    (hround : Yields limit tokens (round state) scanner (.error fault)) :
    Yields limit tokens (loop Scanner.left round state >>= next) scanner (.error fault) :=
  .unroll hround.bind_error

theorem Yields.loop_done {value : α}
    (hround : Yields limit tokens (round state) scanner (.ok (.done value, rest)))
    (hnext : ∀ after : Scanner, after.Sees limit tokens rest →
      Yields limit tokens (next value) after result) :
    Yields limit tokens (loop Scanner.left round state >>= next) scanner result :=
  .unroll (hround.bind_ok fun _ hafter => (Yields.pure hafter value).bind_ok hnext)

theorem Yields.loop_again {before : List Token} (hsees : scanner.Sees limit tokens before)
    (hround : Yields limit tokens (round state) scanner (.ok (.again later, rest)))
    (hlength : rest.length < before.length)
    (hlater : ∀ after : Scanner, after.Sees limit tokens rest →
      Yields limit tokens (loop Scanner.left round later >>= next) after result) :
    Yields limit tokens (loop Scanner.left round state >>= next) scanner result := by
  refine .unroll (hround.bind_ok fun after hafter => .again ?_ (hlater after hafter))
  rwa [hafter.left_eq, hsees.left_eq]

end Loops

/-! ### Calls -/

theorem record_eq {scan : Scan ε α} {outcome : Except ε α} {after : Scanner}
    (hscan : scan scanner = some (outcome, after)) (method : Method) (depth : Option Nat)
    (answer : α → Answer) :
    Scan.record method depth answer scan scanner = some (outcome, after.note
      ⟨method, depth, scanner.cursor, after.cursor, answerOf answer outcome⟩) := by
  rw [Scan.record, hscan]
  rfl

/-- A call that has ended is the last one in the record. -/
theorem exists_call_of_record {method : Method} {depth : Option Nat} {answer : α → Answer}
    {scan : Scan ε α} {outcome : Except ε α} {after : Scanner}
    (hrecord : Scan.record method depth answer scan scanner = some (outcome, after)) :
    ∃ call ∈ after.calls, call.method = method ∧ call.before = scanner.cursor ∧
      call.after = after.cursor ∧ call.answer = answerOf answer outcome := by
  cases hscan : scan scanner with
  | none =>
      rw [Scan.record, hscan] at hrecord
      contradiction
  | some result =>
      rw [record_eq hscan] at hrecord
      obtain ⟨rfl, rfl⟩ := Prod.mk.inj (Option.some.inj hrecord)
      exact ⟨_, List.mem_cons_self, rfl, rfl, rfl, rfl⟩

/-- A call yields what is called, which has to keep what its method promises. -/
theorem Yields.record {method : Method} {depth : Option Nat} {answer : α → Answer}
    {scan : Scan Fault α} {result : Except Fault (α × List Token)}
    (hsees : scanner.Sees limit tokens rest) (hdepth : ∀ level ∈ depth, level ≤ limit)
    (hscan : Yields limit tokens scan scanner result)
    (hvalue : ∀ value left, result = .ok (value, left) → answer value ≠ .fault ∧
      (∀ level ∈ depth, level < limit) ∧ method.Leaves (answer value) rest left) :
    Yields limit tokens (Scan.record method depth answer scan) scanner result := by
  cases result with
  | error fault =>
      obtain ⟨after, left, hrun, hleads, hafter⟩ := hscan
      refine ⟨_, left, record_eq hrun method depth answer, hleads.note _, hafter.note ?_⟩
      exact {
        before_within := hsees.within
        after_within := hafter.within
        moves := hleads.moves
        depth_le := hdepth
        depth_lt := fun hanswer => absurd rfl hanswer
        leaves := method.leaves_fault _ _ }
  | ok result =>
      obtain ⟨value, left⟩ := result
      obtain ⟨after, hrun, hleads, hafter, hclean⟩ := hscan
      obtain ⟨hanswer, hlevel, hleaves⟩ := hvalue value left rfl
      refine ⟨_, record_eq hrun method depth answer, hleads.note _, hafter.note ?_,
        fun hbefore => (hclean hbefore).note hanswer⟩
      exact {
        before_within := hsees.within
        after_within := hafter.within
        moves := hleads.moves
        depth_le := hdepth
        depth_lt := fun _ => hlevel
        leaves := by rwa [hsees.rest_eq, hafter.rest_eq] }

/-- A call of a method that promises nothing. -/
theorem Yields.call {method : Method} {scan : Scan Fault α}
    {result : Except Fault (α × List Token)} (hsees : scanner.Sees limit tokens rest)
    (hmethod : ∀ left, method.Leaves .value rest left)
    (hscan : Yields limit tokens scan scanner result) :
    Yields limit tokens (Scan.call method scan) scanner result :=
  hscan.record hsees nofun fun _ left _ => ⟨nofun, nofun, hmethod left⟩

end Rules

/-! ### Looking and taking -/

section Tokens

variable {α : Type} {scanner : Scanner} {rest : List Token} {token : Token}

theorem yields_peek? (hsees : scanner.Sees limit tokens rest) (ahead : Nat) :
    Yields limit tokens (peek? tokens ahead) scanner (.ok (rest[ahead]?, rest)) := by
  have hpeek : scanner.cursor.peek? tokens ahead = rest[ahead]? := by
    rw [Cursor.peek?_eq_getElem?, hsees.rest_eq]
  rw [← hpeek]
  exact ⟨scanner, rfl, .refl _, hsees, id⟩

/-- Looking at the token at the cursor and going on with it. -/
theorem Yields.peek {next : Option Token → Scan Fault α}
    {result : Except Fault (α × List Token)} (hsees : scanner.Sees limit tokens rest)
    (hnext : Yields limit tokens (next rest.head?) scanner result) :
    Yields limit tokens (peek? tokens 0 >>= next) scanner result := by
  have hpeek : scanner.cursor.peek? tokens 0 = rest.head? := by
    rw [Cursor.peek?_eq_getElem?, hsees.rest_eq, List.head?_eq_getElem?]
  change Yields limit tokens (next (scanner.cursor.peek? tokens 0)) scanner result
  rwa [hpeek]

theorem Yields.nextIs {role : Token.Role} {next : Bool → Scan Fault α}
    {result : Except Fault (α × List Token)} (hsees : scanner.Sees limit tokens rest)
    (hnext : Yields limit tokens (next (rest.head?.any fun token => token.role = role)) scanner
      result) :
    Yields limit tokens (Scan.nextIs tokens role >>= next) scanner result := by
  rw [Scan.nextIs, bind_assoc]
  exact .peek hsees hnext

theorem Yields.nextIs_pos {role : Token.Role} {next : Bool → Scan Fault α}
    {result : Except Fault (α × List Token)} (hsees : scanner.Sees limit tokens (token :: rest))
    (hrole : token.role = role) (hnext : Yields limit tokens (next true) scanner result) :
    Yields limit tokens (Scan.nextIs tokens role >>= next) scanner result := by
  refine .nextIs hsees ?_
  rwa [List.head?_cons, Option.any_some, decide_eq_true hrole]

theorem Yields.nextIs_neg {role : Token.Role} {next : Bool → Scan Fault α}
    {result : Except Fault (α × List Token)} (hsees : scanner.Sees limit tokens (token :: rest))
    (hrole : ¬ token.role = role) (hnext : Yields limit tokens (next false) scanner result) :
    Yields limit tokens (Scan.nextIs tokens role >>= next) scanner result := by
  refine .nextIs hsees ?_
  rwa [List.head?_cons, Option.any_some, decide_eq_false hrole]

theorem yields_advance (hsees : scanner.Sees limit tokens rest) :
    Yields limit tokens advance scanner (.ok ((), rest.tail)) := by
  refine Yields.call hsees (fun _ => trivial)
    ⟨_, rfl, ⟨Cursor.moves_advance hsees.within, List.suffix_rfl⟩, ?_, id⟩
  exact {
    within := hsees.within.advance
    rest_eq := hsees.within.rest_advance.trans (congrArg List.tail hsees.rest_eq)
    sound := hsees.sound }

theorem yields_expectToken_nil (hsees : scanner.Sees limit tokens []) :
    Yields limit tokens (expectToken tokens) scanner (.error .missing) :=
  Yields.peek hsees (.throw hsees _)

theorem yields_expectToken_cons (hsees : scanner.Sees limit tokens (token :: rest)) :
    Yields limit tokens (expectToken tokens) scanner (.ok (token, token :: rest)) :=
  Yields.peek hsees (.pure hsees _)

theorem yields_consume (hsees : scanner.Sees limit tokens rest) (role : Token.Role)
    (expected : Expectation) :
    Yields limit tokens (consume tokens role expected) scanner
      (expectRole role expected rest) := by
  refine Yields.call hsees (fun _ => trivial) ?_
  cases rest with
  | nil => exact (yields_expectToken_nil hsees).bind_error
  | cons token rest =>
      refine (yields_expectToken_cons hsees).bind_ok fun after hafter => ?_
      rw [expectRole, Dataflow.expectToken]
      by_cases hrole : token.role = role
      · rw [if_pos hrole, if_pos (decide_eq_true hrole)]
        exact (yields_advance hafter).bind_ok fun last hlast => .pure hlast _
      · rw [if_neg hrole, if_neg (by simpa using hrole)]
        exact .throw hafter _

theorem yields_consume_pos {role : Token.Role}
    (hsees : scanner.Sees limit tokens (token :: rest)) (hrole : token.role = role)
    (expected : Expectation) :
    Yields limit tokens (consume tokens role expected) scanner (.ok (token, rest)) := by
  rw [← expectRole_of_eq hrole expected rest]
  exact yields_consume hsees role expected

theorem yields_consume_neg {role : Token.Role}
    (hsees : scanner.Sees limit tokens (token :: rest)) (hrole : token.role ≠ role)
    (expected : Expectation) :
    Yields limit tokens (consume tokens role expected) scanner
      (.error (.unexpected expected token)) := by
  rw [← expectRole_of_ne hrole expected rest]
  exact yields_consume hsees role expected

/-- A reader for items up to a closing token, which is not asked where there are none. -/
def readBetween {α : Type} (close : Token.Role) (nothing : α)
    (read : List Token → Except Fault (α × List Token)) :
    List Token → Except Fault (α × List Token)
  | [] => read []
  | token :: left => if token.role = close then .ok (nothing, left) else read (token :: left)

theorem yields_between {close : Token.Role} {nothing : α} {items : Scan Fault α}
    {read : List Token → Except Fault (α × List Token)}
    (hsees : scanner.Sees limit tokens rest)
    (hitems : Yields limit tokens items scanner (read rest)) :
    Yields limit tokens (between tokens close nothing items) scanner
      (readBetween close nothing read rest) := by
  cases rest with
  | nil => exact .nextIs hsees hitems
  | cons token left =>
      rw [readBetween]
      by_cases hclose : token.role = close
      · rw [if_pos hclose]
        exact .nextIs_pos hsees hclose
          ((yields_advance hsees).bind_ok fun _ hafter => .pure hafter _)
      · rw [if_neg hclose]
        exact .nextIs_neg hsees hclose hitems

end Tokens

/-! ### Nesting -/

/-- A call at a depth that the limit admits, or that is the limit itself. -/
theorem Yields.nested {α : Type} {scanner : Scanner} {rest : List Token} {method : Method}
    {depth : Nat} {scan : depth < limit → Scan Fault α}
    {result : Except Fault (α × List Token)} (hsees : scanner.Sees limit tokens rest)
    (hdepth : depth ≤ limit) (hscan : ∀ hlt, Yields limit tokens (scan hlt) scanner result)
    (hdeep : ¬ depth < limit → result = .error (.tooDeep depth rest.head?))
    (hvalue : ∀ value left, result = .ok (value, left) → method.Leaves .value rest left) :
    Yields limit tokens (Scan.nested tokens limit method depth scan) scanner result := by
  by_cases hlt : depth < limit
  · refine Yields.record hsees (by simpa using hdepth) ?_ fun value left hresult =>
      ⟨by simp, by simpa using hlt, hvalue value left hresult⟩
    rw [dif_pos hlt]
    exact hscan hlt
  · rw [hdeep hlt]
    refine Yields.record hsees (by simpa using hdepth) ?_ fun _ _ hresult => by cases hresult
    rw [dif_neg hlt]
    exact Yields.peek hsees (.throw hsees _)

end Scan

end Dataflow
