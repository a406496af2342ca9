import Dataflow.Proofs.Cursor.Flow

/-!
# Statements with a cursor

The methods for imports, exports, assignments and whole statements yield what the readers of
lists for the same parts read, and where they have a value they have taken all tokens of the
statement.
-/

namespace Dataflow.Scan

variable {limit : Nat} {tokens : List Token}

/-- A reader for all tokens there are, as one that leaves none. -/
def whole {α : Type} (read : List Token → Except Fault α) (rest : List Token) :
    Except Fault (α × List Token) := do
  let value ← read rest
  return (value, [])

theorem Yields.map_whole {α β : Type} {scanner : Scanner} {rest : List Token}
    {scan : Scan Fault α} {read : List Token → Except Fault α}
    (hscan : Yields limit tokens scan scanner (whole read rest)) (f : α → β) :
    Yields limit tokens (scan >>= fun value => Pure.pure (f value)) scanner
      (whole (fun rest => read rest >>= fun value => Pure.pure (f value)) rest) := by
  rw [whole, bind_assoc]
  rw [whole] at hscan
  cases hread : read rest with
  | error fault =>
      rw [hread] at hscan
      exact hscan.bind_error
  | ok value =>
      rw [hread] at hscan
      exact hscan.bind_ok fun after hafter => .pure hafter _

/-- Reading the state and going on with it. -/
theorem Yields.get {α : Type} {scanner : Scanner} {next : Scanner → Scan Fault α}
    {result : Except Fault (α × List Token)}
    (hnext : Yields limit tokens (next scanner) scanner result) :
    Yields limit tokens (MonadState.get >>= next) scanner result := hnext

theorem follows_signature : Follows limit tokens (signature tokens) Signature.read := by
  intro scanner rest hsees
  refine Yields.call hsees (fun _ => trivial) ?_
  refine (yields_consume hsees _ _).bind fun base left first hread hfirst => ?_
  cases left with
  | nil => exact .nextIs hfirst (.pure hfirst _)
  | cons next after =>
      by_cases harrow : next.role = .arrow
      · simp only [if_pos harrow]
        refine .nextIs_pos hfirst harrow ?_
        refine (yields_advance hfirst).bind_ok fun second hsecond => ?_
        exact (yields_consume hsecond _ _).bind fun output left third _ hthird => .pure hthird _
      · simp only [if_neg harrow]
        exact .nextIs_neg hfirst harrow (.pure hfirst _)

theorem follows_signature? :
    Follows limit tokens (signature? tokens) Assignment.readSignature := by
  intro scanner rest hsees
  cases rest with
  | nil => exact (yields_expectToken_nil hsees).bind_error
  | cons next left =>
      refine (yields_expectToken_cons hsees).bind_ok fun first hfirst => ?_
      rw [Assignment.readSignature]
      by_cases hcolon : next.role = .colon
      · rw [if_pos hcolon, if_pos hcolon]
        refine (yields_advance hfirst).bind_ok fun second hsecond => ?_
        exact (follows_signature hsecond).bind fun declared left third _ hthird => .pure hthird _
      · rw [if_neg hcolon, if_neg hcolon]
        exact .pure hfirst _

/-- A flow that nothing ends takes all tokens. -/
theorem rest_eq_nil_of_flowReaderAt {depth : Nat} {rest left : List Token} {expr : Expr}
    (hdepth : depth ≤ limit)
    (hread : (Expr.flowReaderAt limit (fun _ => false) depth).read rest = .ok (expr, left)) :
    left = [] := by
  obtain ⟨room, rfl⟩ := Nat.exists_eq_add_of_le hdepth
  rw [(Expr.readersAt_eq_readers depth room).1] at hread
  exact Expr.stopsAt_never_iff.mp ((Expr.flowReader_eq_ok_iff Expr.endsLikeEntry_never).mp hread).2

theorem follows_assignment {depth : Nat} (hdepth : depth ≤ limit) :
    Follows limit tokens (assignment tokens limit depth)
      (whole (Assignment.readAt limit depth)) := by
  intro scanner rest hsees
  rw [whole, Assignment.readAt]
  refine Yields.nested hsees hdepth (fun hlt => ?_) (fun hge => ?_) fun _ _ _ => trivial
  · rw [if_pos hlt, Assignment.readWith, bind_assoc]
    refine (yields_consume hsees _ _).bind fun name left first _ hfirst => ?_
    dsimp only
    rw [bind_assoc]
    refine (follows_signature? hfirst).bind fun declared left second _ hsecond => ?_
    dsimp only
    rw [bind_assoc]
    refine (yields_consume hsecond _ _).bind fun equals left third _ hthird => ?_
    cases left with
    | nil => exact (yields_expectToken_nil hthird).bind_error
    | cons token left =>
        refine (yields_expectToken_cons hthird).bind_ok fun fourth hfourth => ?_
        dsimp only [List.isEmpty_cons]
        rw [if_neg Bool.false_ne_true, bind_assoc]
        have hflow := follows_flow (fun _ => false) hlt hfourth
        refine hflow.bind fun value left last hread hlast => ?_
        obtain rfl := rest_eq_nil_of_flowReaderAt hlt hread
        exact .pure hlast _
  · rw [if_neg hge]
    rfl

/-- An import looks at how many tokens the statement has, which is one more than the reader
is given after the keyword. -/
theorem follows_importName {depth : Nat} {keyword : Token} {scanner : Scanner}
    {rest : List Token} (hdepth : depth ≤ limit)
    (hsees : scanner.Sees limit tokens (keyword :: rest)) :
    Yields limit tokens (importName tokens limit keyword depth) scanner
      (whole (Statement.readImportAt limit depth keyword) rest) := by
  have hlength : scanner.cursor.stop - scanner.cursor.current = rest.length + 1 := by
    rw [← hsees.within.length_rest, hsees.rest_eq, List.length_cons]
  rw [whole, Statement.readImportAt]
  refine Yields.nested hsees hdepth (fun hlt => ?_) (fun hge => ?_) fun _ _ _ => trivial
  · rw [if_pos hlt]
    refine Yields.get ?_
    dsimp only
    rw [hlength]
    by_cases hcount : rest.length ≠ 3 ∧ rest.length ≠ 5
    · rw [if_pos hcount, if_pos (by omega)]
      exact .throw hsees _
    · rw [if_neg hcount, if_neg (by omega), Statement.readImportBody, bind_assoc]
      refine (yields_advance hsees).bind_ok fun first hfirst => ?_
      refine (yields_consume hfirst _ _).bind fun name left second _ hsecond => ?_
      dsimp only
      rw [bind_assoc]
      refine (yields_consume hsecond _ _).bind fun colon left third _ hthird => ?_
      dsimp only
      rw [bind_assoc]
      refine (follows_signature hthird).bind fun signature left last _ hlast => ?_
      cases left with
      | nil => exact .peek hlast (.pure hlast _)
      | cons next left => exact .peek hlast (.throw hlast _)
  · rw [if_neg hge]
    rfl

theorem follows_exportFlow {depth : Nat} {keyword : Token} {scanner : Scanner}
    {rest : List Token} (hdepth : depth ≤ limit)
    (hsees : scanner.Sees limit tokens (keyword :: rest)) :
    Yields limit tokens (exportFlow tokens limit depth) scanner
      (whole (Statement.readExportAt limit depth keyword) rest) := by
  rw [whole, Statement.readExportAt]
  refine Yields.nested hsees hdepth (fun hlt => ?_) (fun hge => ?_) fun _ _ _ => trivial
  · rw [if_pos hlt]
    refine (yields_advance hsees).bind_ok fun first hfirst => ?_
    cases rest with
    | nil => exact (yields_expectToken_nil hfirst).bind_error
    | cons token rest =>
        refine (yields_expectToken_cons hfirst).bind_ok fun second hsecond => ?_
        rw [if_neg (by simp)]
        exact (follows_assignment hlt hsecond).map_whole _
  · rw [if_neg hge]
    rfl

theorem follows_statement {depth : Nat} (hdepth : depth ≤ limit) :
    Follows limit tokens (statement tokens limit depth)
      (whole (Statement.readAt limit depth)) := by
  intro scanner rest hsees
  refine Yields.nested hsees hdepth (fun hlt => ?_) (fun hge => ?_) fun statement left hread => ?_
  · rw [whole, Statement.readAt.eq_def, if_pos hlt]
    cases rest with
    | nil => exact .peek hsees (.pure hsees _)
    | cons first rest =>
        refine .peek hsees ?_
        dsimp only [List.head?_cons]
        cases first.role with
        | importWord => exact follows_importName hlt hsees
        | exportWord => exact follows_exportFlow hlt hsees
        | identifier => exact (follows_assignment hlt hsees).map_whole _
        | _ => exact .throw hsees _
  · rw [whole, Statement.readAt.eq_def, if_neg hge]
    rfl
  · rw [whole] at hread
    cases hresult : Statement.readAt limit depth rest with
    | error fault =>
        rw [hresult] at hread
        contradiction
    | ok value =>
        rw [hresult] at hread
        cases hread
        rfl

end Dataflow.Scan
