import Dataflow.Proofs.Cursor.Methods
import Dataflow.Proofs.Cursor.Yields
import Dataflow.Proofs.Levels

/-!
# Settings and patterns with a cursor

The methods for configured components and for keys yield what the readers of lists for
the same parts read, at every depth up to the limit.  A loop is followed along the
recursion of its reader, which is why it ends.
-/

namespace Dataflow.Scan

variable {limit : Nat} {tokens : List Token}

section Rounds

variable {scanner : Scanner} {rest : List Token}

/-! ## Settings -/

theorem Yields.configToken {α : Type} {expected : Expectation} {next : Token → Scan Fault α}
    {result : Except Fault (α × List Token)} (hsees : scanner.Sees limit tokens rest)
    (hnil : rest = [] → result = .error (.configEnded expected))
    (hcons : ∀ token left, rest = token :: left → ∀ after : Scanner,
      after.Sees limit tokens left → Yields limit tokens (next token) after result) :
    Yields limit tokens (Scan.configToken tokens expected >>= next) scanner result := by
  cases rest with
  | nil =>
      have hend : Yields limit tokens (Scan.configToken tokens expected) scanner
          (.error (.configEnded expected)) :=
        Yields.call hsees (fun _ => trivial) (.peek hsees (.throw hsees _))
      rw [hnil rfl]
      exact hend.bind_error
  | cons token left =>
      have htake : Yields limit tokens (Scan.configToken tokens expected) scanner
          (.ok (token, left)) :=
        Yields.call hsees (fun _ => trivial) (.peek hsees
          ((yields_advance hsees).bind_ok fun _ hafter => .pure hafter _))
      exact htake.bind_ok (hcons token left rfl)

/-- The loop over properties goes through the tokens as their reader does. -/
theorem yields_loop_propertyRound (hsees : scanner.Sees limit tokens rest)
    (properties : Settings) :
    Yields limit tokens (loop Scanner.left (propertyRound tokens) properties >>= pure) scanner
      (Settings.readOnto properties rest) := by
  induction hlength : rest.length using Nat.strongRecOn
    generalizing rest scanner properties with
  | ind length ih =>
  refine .unroll ?_
  rw [propertyRound, bind_assoc, Settings.readOnto.eq_def]
  refine Yields.configToken hsees (fun hnil => by rw [hnil]) ?_
  rintro name afterName rfl first hfirst
  by_cases hname : name.role ≠ .identifier
  · simp only [if_pos hname]
    exact (Yields.throw hfirst _).bind_error
  simp only [if_neg hname, bind_assoc]
  refine Yields.configToken hfirst (fun hnil => by rw [hnil]) ?_
  rintro equals afterEquals rfl second hsecond
  by_cases hequals : equals.role ≠ .equals
  · simp only [if_pos hequals]
    exact (Yields.throw hsecond _).bind_error
  simp only [if_neg hequals, bind_assoc]
  refine Yields.configToken hsecond (fun hnil => by rw [hnil]) ?_
  rintro token afterValue rfl third hthird
  dsimp only
  cases token.atom? with
  | none => exact (Yields.throw hthird _).bind_error
  | some value =>
      simp only [bind_assoc]
      refine Yields.configToken hthird (fun hnil => by rw [hnil]) ?_
      rintro separator left rfl last hlast
      dsimp only
      cases separator.role with
      | comma =>
          refine (Yields.pure hlast _).bind_ok fun after hafter => .again ?_ ?_
          · rw [hafter.left_eq, hsees.left_eq]
            simp only [List.length_cons]
            omega
          · refine ih left.length ?_ hafter _ rfl
            simp only [← hlength, List.length_cons]
            omega
      | closeParen => exact .pure hlast _
      | _ => exact (Yields.throw hlast _).bind_error

theorem yields_settings (hsees : scanner.Sees limit tokens rest) :
    Yields limit tokens (settings tokens) scanner (Settings.read rest) := by
  have hloop := yields_loop_propertyRound hsees .empty
  rw [bind_pure] at hloop
  have hread : Settings.read rest =
      readBetween .closeParen .empty (Settings.readOnto .empty) rest := by
    cases rest <;> rfl
  rw [hread]
  exact yields_between hsees hloop

/-- A configured component at the front of the tokens, if there is one. -/
def readConfig? : List Token → Except Fault (Option (String × Settings) × List Token)
  | [] => .ok (none, [])
  | [name] => .ok (none, [name])
  | name :: next :: left =>
    if name.role = .identifier ∧ next.role = .openParen then do
      let (settings, after) ← Settings.read left
      return (some (name.text, settings), after)
    else .ok (none, name :: next :: left)

/-- A component takes tokens exactly when it is there. -/
theorem leaves_readConfig? {config : Option (String × Settings)} {left : List Token}
    (hread : readConfig? rest = .ok (config, left)) :
    Method.Leaves .config (if config.isSome then .value else .nothing) rest left := by
  unfold readConfig? at hread
  split at hread
  · cases hread
    rfl
  · cases hread
    rfl
  · split at hread
    · next name next after hstart =>
        cases hsettings : Settings.read after with
        | error fault =>
            rw [hsettings] at hread
            contradiction
        | ok result =>
            have hlt := Settings.length_lt_of_read hsettings
            rw [hsettings] at hread
            cases hread
            simp only [Option.isSome_some, if_true, Method.Leaves, List.length_cons]
            omega
    · cases hread
      rfl

theorem yields_config? (hsees : scanner.Sees limit tokens rest) :
    Yields limit tokens (config? tokens) scanner (readConfig? rest) := by
  refine Yields.record hsees (by simp) ?_ fun config left hresult =>
    ⟨?_, by simp, leaves_readConfig? hresult⟩
  · cases rest with
    | nil => exact .peek hsees (.pure hsees _)
    | cons name rest =>
        refine .peek hsees ((yields_peek? hsees 1).bind_ok fun first hfirst => ?_)
        cases rest with
        | nil =>
            rw [if_neg (by simp)]
            exact .pure hfirst _
        | cons next left =>
            rw [readConfig?]
            by_cases hstart : name.role = .identifier ∧ next.role = .openParen
            · rw [if_pos hstart, if_pos (by simpa using hstart)]
              refine (yields_advance hfirst).bind_ok fun second hsecond => ?_
              refine (yields_advance hsecond).bind_ok fun third hthird => ?_
              exact (yields_settings hthird).bind fun _ _ _ _ hlast => .pure hlast _
            · rw [if_neg hstart, if_neg (by simpa using hstart)]
              exact .pure hfirst _
  · cases config <;> simp

/-! ## Patterns -/

/-- The loop over arguments, along the recursion of their reader. -/
theorem yields_loop_argRound {arg : Scan Fault Pattern} {reader : TokenReader Pattern}
    (harg : Follows limit tokens arg reader.read) (hsees : scanner.Sees limit tokens rest)
    (patterns : List Pattern) :
    Yields limit tokens (loop Scanner.left (argRound tokens arg) patterns >>= pure) scanner
      (Pattern.readArgsOnto reader patterns rest) := by
  fun_induction Pattern.readArgsOnto reader patterns rest generalizing scanner with
  | case1 patterns rest fault hread =>
      have hfault := harg.yields hsees hread
      exact .loop_error hfault.bind_error
  | case2 patterns rest pattern hread =>
      have hpattern := harg.yields hsees hread
      exact .loop_error (hpattern.bind_ok fun first hfirst =>
        (yields_expectToken_nil hfirst).bind_error)
  | case3 patterns rest pattern separator left hread hrole ih =>
      have hpattern := harg.yields hsees hread
      have hlength := reader.shrinks hread
      refine .loop_again hsees (hpattern.bind_ok fun first hfirst =>
        (yields_expectToken_cons hfirst).bind_ok fun second hsecond => ?_)
        (Nat.lt_of_succ_lt hlength) fun _ => ih
      rw [hrole]
      exact (yields_advance hsecond).bind_ok fun third hthird => .pure hthird _
  | case4 patterns rest pattern separator left hread hrole =>
      have hpattern := harg.yields hsees hread
      refine .loop_done (hpattern.bind_ok fun first hfirst =>
        (yields_expectToken_cons hfirst).bind_ok fun second hsecond => ?_)
        fun _ hafter => .pure hafter _
      rw [hrole]
      exact (yields_advance hsecond).bind_ok fun third hthird => .pure hthird _
  | case5 patterns rest pattern separator left hread hcomma hclose =>
      have hpattern := harg.yields hsees hread
      refine .loop_error (hpattern.bind_ok fun first hfirst =>
        (yields_expectToken_cons hfirst).bind_ok fun second hsecond => ?_)
      split
      · contradiction
      · contradiction
      · exact .throw hsecond _

theorem yields_args {arg : Scan Fault Pattern} {reader : TokenReader Pattern}
    (harg : Follows limit tokens arg reader.read) (hsees : scanner.Sees limit tokens rest) :
    Yields limit tokens (args tokens arg) scanner (Pattern.readArgs reader rest) := by
  have hloop := yields_loop_argRound harg hsees []
  rw [bind_pure] at hloop
  have hread : Pattern.readArgs reader rest =
      readBetween .closeParen [] (Pattern.readArgsOnto reader []) rest := by
    cases rest <;> rfl
  rw [hread]
  exact yields_between hsees hloop

theorem follows_keyWith {arg : Scan Fault Pattern} {reader : TokenReader Pattern}
    (harg : Follows limit tokens arg reader.read) :
    Follows limit tokens (keyWith tokens arg) (Pattern.readWith reader) := by
  intro scanner rest hsees
  cases rest with
  | nil => exact (yields_expectToken_nil hsees).bind_error
  | cons token rest =>
      refine (yields_expectToken_cons hsees).bind_ok fun first hfirst => ?_
      rw [Pattern.readWith.eq_def, Token.atom?]
      dsimp only
      cases token.role with
      | literal =>
          exact (yields_advance hfirst).bind_ok fun _ hafter => .pure hafter _
      | identifier =>
          refine (yields_advance hfirst).bind_ok fun second hsecond => ?_
          cases rest with
          | nil => exact .nextIs hsecond (.pure hsecond _)
          | cons next left =>
              by_cases hopen : next.role = .openParen
              · simp only [if_pos hopen]
                refine .nextIs_pos hsecond hopen ?_
                refine (yields_advance hsecond).bind_ok fun third hthird => ?_
                rw [List.tail_cons, List.tail_cons] at hthird
                refine (yields_args harg hthird).bind_cases (fun fault hread => by rw [hread])
                  fun patterns after last hread hlast => ?_
                rw [hread]
                exact .pure hlast _
              · simp only [if_neg hopen]
                exact .nextIs_neg hsecond hopen (.pure hsecond _)
      | _ => exact .throw hfirst _

end Rounds

/-- Keys are followed from the limit upwards in room, one depth after another. -/
theorem follows_key {depth : Nat} (hdepth : depth ≤ limit) :
    Follows limit tokens (key tokens limit depth) (Pattern.readerAt limit depth).read := by
  intro scanner rest hsees
  rw [key, Pattern.readerAt]
  refine Yields.nested hsees hdepth (fun hlt => ?_) (fun hge => ?_) fun pattern left hread => ?_
  · rw [dif_pos hlt]
    exact follows_keyWith (follows_key hlt) hsees
  · rw [dif_neg hge]
    rfl
  · exact Reader.shrinks _ hread
termination_by limit - depth

end Dataflow.Scan
