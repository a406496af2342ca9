import Dataflow.Program.Basic

/-!
# Programs that are the same

Whether two programs are the same can be decided, the order of properties
included.  Patterns and expressions hold lists of themselves, so each is
compared together with its lists.
-/

namespace Dataflow

mutual

def Pattern.decEq : (left right : Pattern) → Decidable (left = right)
  | .atom left, .atom right =>
    if h : left = right then .isTrue (by rw [h]) else .isFalse (by simp [h])
  | .atom _, .constructor _ _ => .isFalse (by simp)
  | .constructor _ _, .atom _ => .isFalse (by simp)
  | .constructor leftName leftArgs, .constructor rightName rightArgs =>
    if hname : leftName = rightName then
      match Pattern.decEqAll leftArgs rightArgs with
      | .isTrue hargs => .isTrue (by rw [hname, hargs])
      | .isFalse hargs => .isFalse (by simp [hargs])
    else .isFalse (by simp [hname])

def Pattern.decEqAll : (lefts rights : List Pattern) → Decidable (lefts = rights)
  | [], [] => .isTrue rfl
  | [], _ :: _ => .isFalse (by simp)
  | _ :: _, [] => .isFalse (by simp)
  | left :: lefts, right :: rights =>
    match Pattern.decEq left right, Pattern.decEqAll lefts rights with
    | .isTrue hhead, .isTrue htail => .isTrue (by rw [hhead, htail])
    | .isFalse hhead, _ => .isFalse (by simp [hhead])
    | _, .isFalse htail => .isFalse (by simp [htail])

end

instance : DecidableEq Pattern := Pattern.decEq

mutual

def Expr.decEq : (left right : Expr) → Decidable (left = right)
  | .atom left, .atom right =>
    if h : left = right then .isTrue (by rw [h]) else .isFalse (by simp [h])
  | .flow lefts, .flow rights =>
    match Expr.decEqAll lefts rights with
    | .isTrue h => .isTrue (by rw [h])
    | .isFalse h => .isFalse (by simp [h])
  | .map lefts, .map rights =>
    match Expr.decEqEntries lefts rights with
    | .isTrue h => .isTrue (by rw [h])
    | .isFalse h => .isFalse (by simp [h])
  | .config leftName left, .config rightName right =>
    if h : leftName = rightName ∧ left = right then .isTrue (by rw [h.1, h.2])
    else .isFalse (by simpa using h)
  | .atom _, .flow _ => .isFalse (by simp)
  | .atom _, .map _ => .isFalse (by simp)
  | .atom _, .config _ _ => .isFalse (by simp)
  | .flow _, .atom _ => .isFalse (by simp)
  | .flow _, .map _ => .isFalse (by simp)
  | .flow _, .config _ _ => .isFalse (by simp)
  | .map _, .atom _ => .isFalse (by simp)
  | .map _, .flow _ => .isFalse (by simp)
  | .map _, .config _ _ => .isFalse (by simp)
  | .config _ _, .atom _ => .isFalse (by simp)
  | .config _ _, .flow _ => .isFalse (by simp)
  | .config _ _, .map _ => .isFalse (by simp)

def Expr.decEqAll : (lefts rights : List Expr) → Decidable (lefts = rights)
  | [], [] => .isTrue rfl
  | [], _ :: _ => .isFalse (by simp)
  | _ :: _, [] => .isFalse (by simp)
  | left :: lefts, right :: rights =>
    match Expr.decEq left right, Expr.decEqAll lefts rights with
    | .isTrue hhead, .isTrue htail => .isTrue (by rw [hhead, htail])
    | .isFalse hhead, _ => .isFalse (by simp [hhead])
    | _, .isFalse htail => .isFalse (by simp [htail])

def Expr.decEqEntries :
    (lefts rights : List (Pattern × Expr)) → Decidable (lefts = rights)
  | [], [] => .isTrue rfl
  | [], _ :: _ => .isFalse (by simp)
  | _ :: _, [] => .isFalse (by simp)
  | (leftKey, left) :: lefts, (rightKey, right) :: rights =>
    if hkey : leftKey = rightKey then
      match Expr.decEq left right, Expr.decEqEntries lefts rights with
      | .isTrue hhead, .isTrue htail => .isTrue (by rw [hkey, hhead, htail])
      | .isFalse hhead, _ => .isFalse (by simp [hhead])
      | _, .isFalse htail => .isFalse (by simp [htail])
    else .isFalse (by simp [hkey])

end

instance : DecidableEq Expr := Expr.decEq

deriving instance DecidableEq for Assignment

deriving instance DecidableEq for Statement

end Dataflow
