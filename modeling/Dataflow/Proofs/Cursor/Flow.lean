import Dataflow.Proofs.Cursor.Parts
import Dataflow.Proofs.Reading.Flow

/-!
# Flows and maps with a cursor

The methods for flows and maps call one another, one depth deeper each time, and yield what
the readers of lists for flows and maps read.
-/

namespace Dataflow.Scan

variable {limit : Nat} {tokens : List Token}

section Flows

variable {scanner : Scanner} {rest : List Token}

theorem yields_finish (hsees : scanner.Sees limit tokens rest) (steps : List Expr) :
    Yields limit tokens (finish tokens steps) scanner (Expr.ofSteps steps rest) := by
  rw [finish, Expr.ofSteps.eq_def]
  cases Expr.ofSteps? steps with
  | some expr => exact .pure hsees expr
  | none =>
      cases rest with
      | nil => exact .peek hsees (.throw hsees _)
      | cons token left => exact .peek hsees (.throw hsees _)

/-- A round at the end of a flow. -/
theorem yields_stepRound_end {map : Scan Fault (List (Pattern × Expr))} {ends : Token → Bool}
    (hsees : scanner.Sees limit tokens rest) (hends : Expr.StopsAt ends rest)
    (steps : List Expr) :
    Yields limit tokens (stepRound tokens map ends steps) scanner
      (.ok (.done steps.reverse, rest)) := by
  cases rest with
  | nil => exact .peek hsees (.pure hsees _)
  | cons token left =>
      refine .peek hsees ?_
      simp only [List.head?_cons, if_pos (hends token rfl)]
      exact .pure hsees _

theorem readConfig?_of_ne {token : Token} (hrole : token.role ≠ .identifier)
    (left : List Token) : readConfig? (token :: left) = .ok (none, token :: left) := by
  cases left with
  | nil => rfl
  | cons next left => exact if_neg fun hstart => hrole hstart.1

/-- A round at an atom, after no component was found there. -/
theorem yields_stepRound_atom {map : Scan Fault (List (Pattern × Expr))} {ends : Token → Bool}
    {token : Token} {left : List Token} {value : Atom}
    (hsees : scanner.Sees limit tokens (token :: left)) (hend : ¬ ends token = true)
    (hconfig : readConfig? (token :: left) = .ok (none, token :: left))
    (hatom : token.atom? = some value) (steps : List Expr) :
    Yields limit tokens (stepRound tokens map ends steps) scanner
      (.ok (.again (.atom value :: steps), left)) := by
  have hroles : token.role ≠ .arrow ∧ token.role ≠ .openBrace := by
    rw [Token.atom?] at hatom
    constructor <;> intro hrole <;> simp [hrole] at hatom
  have hnone := yields_config? hsees
  rw [hconfig] at hnone
  refine .peek hsees ?_
  simp only [List.head?_cons, if_neg hend, if_neg hroles.1, if_neg hroles.2]
  refine hnone.bind_ok fun first hfirst => ?_
  simp only [hatom]
  exact (yields_advance hfirst).bind_ok fun _ hafter => .pure hafter _

/-- The loop over steps and what is made of them, along the recursion of their reader. -/
theorem yields_loop_stepRound {map : Scan Fault (List (Pattern × Expr))}
    {reader : TokenReader (List (Pattern × Expr))} (hmap : Follows limit tokens map reader.read)
    (ends : Token → Bool) (hsees : scanner.Sees limit tokens rest) (steps : List Expr) :
    Yields limit tokens (loop Scanner.left (stepRound tokens map ends) steps >>= finish tokens)
      scanner (Expr.readStepsOnto reader ends steps rest) := by
  fun_induction Expr.readStepsOnto reader ends steps rest generalizing scanner with
  | case1 steps =>
      have hends : Expr.StopsAt ends [] := by simp [Expr.StopsAt]
      exact .loop_done (yields_stepRound_end hsees hends steps)
        fun _ hafter => yields_finish hafter _
  | case2 steps token left hend =>
      have hends : Expr.StopsAt ends (token :: left) := by simpa [Expr.StopsAt] using hend
      exact .loop_done (yields_stepRound_end hsees hends steps)
        fun _ hafter => yields_finish hafter _
  | case3 steps token hend hrole =>
      refine .loop_error (.peek hsees ?_)
      simp only [List.head?_cons, if_neg hend, if_pos hrole]
      refine (yields_advance hsees).bind_ok fun first hfirst => ?_
      exact .peek hfirst (.throw hfirst _)
  | case4 steps token hend hrole next left hnext =>
      refine .loop_error (.peek hsees ?_)
      simp only [List.head?_cons, if_neg hend, if_pos hrole]
      refine (yields_advance hsees).bind_ok fun first hfirst => .peek hfirst ?_
      simp only [List.tail_cons, List.head?_cons, if_pos hnext]
      exact .throw hfirst _
  | case5 steps token hend hrole next left hnext ih =>
      refine .loop_again hsees (.peek hsees ?_) (Nat.lt_succ_self _) fun _ => ih
      simp only [List.head?_cons, if_neg hend, if_pos hrole]
      refine (yields_advance hsees).bind_ok fun first hfirst => .peek hfirst ?_
      simp only [List.tail_cons, List.head?_cons, if_neg hnext]
      exact .pure hfirst _
  | case6 steps token left hend hrole fault hread =>
      have hfault := hmap.yields hsees hread
      refine .loop_error (.peek hsees ?_)
      simp only [List.head?_cons, if_neg hend, hrole, reduceCtorEq, if_false, if_true]
      exact hfault.bind_error
  | case7 steps token left hend hrole entries after hread ih =>
      have hentries := hmap.yields hsees hread
      refine .loop_again hsees (.peek hsees ?_) (reader.shrinks hread) fun _ => ih
      simp only [List.head?_cons, if_neg hend, hrole, reduceCtorEq, if_false, if_true]
      exact hentries.bind_ok fun _ hafter => .pure hafter _
  | case8 steps token hend hrole ih =>
      have hatom : token.atom? = some (.identifier token.text) := by rw [Token.atom?, hrole]
      exact .loop_again hsees (yields_stepRound_atom hsees hend rfl hatom steps)
        (Nat.lt_succ_self _) fun _ => ih
  | case9 steps token hend hrole next left hopen fault hread =>
      have hfault := yields_config? hsees
      rw [readConfig?, if_pos ⟨hrole, hopen⟩, hread] at hfault
      refine .loop_error (.peek hsees ?_)
      simp only [List.head?_cons, if_neg hend, hrole, reduceCtorEq, if_false]
      exact hfault.bind_error
  | case10 steps token hend hrole next left hopen settings after hread ih =>
      have hconfig := yields_config? hsees
      rw [readConfig?, if_pos ⟨hrole, hopen⟩, hread] at hconfig
      have hlength : after.length < (token :: next :: left).length :=
        Nat.lt_succ_of_lt (Nat.lt_succ_of_lt (Settings.length_lt_of_read hread))
      refine .loop_again hsees (.peek hsees ?_) hlength fun _ => ih
      simp only [List.head?_cons, if_neg hend, hrole, reduceCtorEq, if_false]
      exact hconfig.bind_ok fun _ hafter => .pure hafter _
  | case11 steps token hend hrole next left hopen ih =>
      have hatom : token.atom? = some (.identifier token.text) := by rw [Token.atom?, hrole]
      have hnone : readConfig? (token :: next :: left) = .ok (none, token :: next :: left) :=
        if_neg fun hstart => hopen hstart.2
      exact .loop_again hsees (yields_stepRound_atom hsees hend hnone hatom steps)
        (Nat.lt_succ_self _) fun _ => ih
  | case12 steps token left hend hrole ih =>
      have hatom : token.atom? = some (.literal token.text) := by rw [Token.atom?, hrole]
      have hname : token.role ≠ .identifier := by simp [hrole]
      have hnone := readConfig?_of_ne hname left
      exact .loop_again hsees (yields_stepRound_atom hsees hend hnone hatom steps)
        (Nat.lt_succ_self _) fun _ => ih
  | case13 steps token left hend harrow hbrace hname hliteral =>
      have hatom : token.atom? = none := by
        rw [Token.atom?]
        split
        · contradiction
        · contradiction
        · rfl
      have hnone := yields_config? hsees
      rw [readConfig?_of_ne hname left] at hnone
      refine .loop_error (.peek hsees ?_)
      simp only [List.head?_cons, if_neg hend, if_neg harrow, if_neg hbrace]
      refine hnone.bind_ok fun first hfirst => ?_
      simp only [hatom]
      exact .throw hfirst _

/-- The loop over entries, along the recursion of their reader. -/
theorem yields_loop_entryRound {key : Scan Fault Pattern} {value : Scan Fault Expr}
    {keyReader : TokenReader Pattern} {valueReader : TokenReader Expr}
    (hkey : Follows limit tokens key keyReader.read)
    (hvalue : Follows limit tokens value valueReader.read)
    (hsees : scanner.Sees limit tokens rest) (entries : List (Pattern × Expr)) :
    Yields limit tokens (loop Scanner.left (entryRound tokens key value) entries >>= pure) scanner
      (Expr.readEntriesOnto keyReader valueReader entries rest) := by
  fun_induction Expr.readEntriesOnto keyReader valueReader entries rest generalizing scanner with
  | case1 entries rest fault hread =>
      have hfault := hkey.yields hsees hread
      exact .loop_error hfault.bind_error
  | case2 entries rest pattern hread =>
      have hpattern := hkey.yields hsees hread
      exact .loop_error (hpattern.bind_ok fun first hfirst =>
        (yields_consume hfirst _ _).bind_error)
  | case3 entries rest pattern colon left hread hcolon =>
      have hpattern := hkey.yields hsees hread
      exact .loop_error (hpattern.bind_ok fun first hfirst =>
        (yields_consume_neg hfirst hcolon _).bind_error)
  | case4 entries rest pattern colon left hread hcolon fault hread' =>
      have hpattern := hkey.yields hsees hread
      exact .loop_error (hpattern.bind_ok fun first hfirst =>
        (yields_consume_pos hfirst (not_not.mp hcolon) _).bind_ok fun second hsecond =>
          (hvalue.yields hsecond hread').bind_error)
  | case5 entries rest pattern colon left hread hcolon expr hread' =>
      have hpattern := hkey.yields hsees hread
      exact .loop_error (hpattern.bind_ok fun first hfirst =>
        (yields_consume_pos hfirst (not_not.mp hcolon) _).bind_ok fun second hsecond =>
          (hvalue.yields hsecond hread').bind_ok fun third hthird =>
            (yields_expectToken_nil hthird).bind_error)
  | case6 entries rest pattern colon left hread hcolon expr separator after hread' hclose =>
      have hpattern := hkey.yields hsees hread
      refine .loop_done (hpattern.bind_ok fun first hfirst =>
        (yields_consume_pos hfirst (not_not.mp hcolon) _).bind_ok fun second hsecond =>
          (hvalue.yields hsecond hread').bind_ok fun third hthird =>
            (yields_expectToken_cons hthird).bind_ok fun fourth hfourth =>
              (yields_advance hfourth).bind_ok fun last hlast => ?_)
        fun _ hafter => .pure hafter _
      rw [if_pos hclose]
      exact .pure hlast _
  | case7 entries rest pattern colon left hread hcolon expr separator after hread' hclose ih =>
      have hpattern := hkey.yields hsees hread
      have hkeyLength := keyReader.shrinks hread
      have hvalueLength := valueReader.shrinks hread'
      simp only [List.length_cons] at hkeyLength hvalueLength
      refine .loop_again hsees (hpattern.bind_ok fun first hfirst =>
        (yields_consume_pos hfirst (not_not.mp hcolon) _).bind_ok fun second hsecond =>
          (hvalue.yields hsecond hread').bind_ok fun third hthird =>
            (yields_expectToken_cons hthird).bind_ok fun fourth hfourth =>
              (yields_advance hfourth).bind_ok fun last hlast => ?_)
        (by omega) fun _ => ih
      rw [if_neg hclose]
      exact .pure hlast _

theorem follows_mapWith {key : Scan Fault Pattern} {value : Scan Fault Expr}
    {keyReader : TokenReader Pattern} {valueReader : TokenReader Expr}
    (hkey : Follows limit tokens key keyReader.read)
    (hvalue : Follows limit tokens value valueReader.read) :
    Follows limit tokens (mapWith tokens key value) (Expr.readMapWith keyReader valueReader) := by
  intro scanner rest hsees
  rw [Expr.readMapWith]
  refine (yields_consume hsees .openBrace .mapStart).bind_cases
    (fun fault hread => by rw [hread]) fun brace left first hread hfirst => ?_
  have hloop := yields_loop_entryRound hkey hvalue hfirst []
  rw [bind_pure] at hloop
  have hbetween : Yields limit tokens (between tokens .closeBrace [] _) first
      (readBetween .closeBrace [] (Expr.readEntriesOnto keyReader valueReader []) left) :=
    yields_between hfirst hloop
  rw [hread]
  cases left with
  | nil => exact hbetween
  | cons token left => exact hbetween

end Flows

mutual

theorem follows_flow (ends : Token → Bool) {depth : Nat} (hdepth : depth ≤ limit) :
    Follows limit tokens (flow tokens limit ends depth)
      (Expr.flowReaderAt limit ends depth).read := by
  intro scanner rest hsees
  rw [flow, Expr.flowReaderAt]
  refine Yields.nested hsees hdepth (fun hlt => ?_) (fun hge => ?_) fun expr left hread => ?_
  · rw [dif_pos hlt]
    exact yields_loop_stepRound (follows_map hlt) ends hsees []
  · rw [dif_neg hge]
    rfl
  · exact Reader.shrinks _ hread
termination_by limit - depth

theorem follows_map {depth : Nat} (hdepth : depth ≤ limit) :
    Follows limit tokens (map tokens limit depth) (Expr.mapReaderAt limit depth).read := by
  intro scanner rest hsees
  rw [map, Expr.mapReaderAt]
  refine Yields.nested hsees hdepth (fun hlt => ?_) (fun hge => ?_) fun entries left hread => ?_
  · rw [dif_pos hlt]
    exact follows_mapWith (follows_key hlt) (follows_flow Token.endsEntry hlt) hsees
  · rw [dif_neg hge]
    rfl
  · exact Reader.shrinks _ hread
termination_by limit - depth

end

end Dataflow.Scan
