import LaurentCalc.Expr.Flat
import LaurentCalc.Proofs.Attempt

/-!
# Rewriting rule by rule

The rules of reduction as rules that rewrite the root of a tree. A rule asks for the
rewriting of other trees on its way: of parts of the tree, and of trees that it has
put together from what such parts were rewritten to. These need not be smaller than
the tree, and nothing here says that the asking comes to an end.
-/

namespace LaurentCalc

set_option autoImplicit false

/-- The course of a rule: it has ended, or it asks for the rewriting of a tree and goes on with
what comes of that. -/
inductive Course (α : Type) where
  | done (outcome : Attempt α)
  | ask (e : Expr) (resume : Attempt Expr → Course α)

namespace Course

variable {α β : Type}

def andThen (c : Course α) (f : α → Course β) : Course β :=
  match c with
  | .done (.ok a) => f a
  | .done (.error o) => .done (.error o)
  | .ask e resume => .ask e fun outcome => (resume outcome).andThen f

instance : Monad Course where
  pure a := .done (.ok a)
  bind := andThen

/-- The second course after the first, if that ends without a rule. -/
def orIfNoRule (first second : Course α) : Course α :=
  match first with
  | .done (.error .noRule) => second
  | .done outcome => .done outcome
  | .ask e resume => .ask e fun outcome => (resume outcome).orIfNoRule second

def rewrite (e : Expr) : Course Expr := .ask e .done

def noRule : Course α := .done (.error .noRule)

end Course

namespace Expr

open Course (rewrite noRule)

/-- A plus sign is dropped in front of a term or a sum, and kept in front of anything else. -/
def plusRule (e : Expr) : Course Expr := do
  match ← rewrite e with
  | .term t => return .term t
  | .binary (.additive s) l r => return .additive s l r
  | operand => return .unary (.sign .plus) operand

/-- A minus sign moves into a term and past the root of a sum. -/
def minusRule (e : Expr) : Course Expr := do
  match ← rewrite e with
  | .term t => return .term t.neg
  | .binary (.additive s) l r => do
    let l' ← rewrite (.unary (.sign .minus) l)
    let r' ← rewrite (.unary (.sign .minus) r)
    return .additive s l' r'
  | operand => return .unary (.sign .minus) operand

/-- One term for two like terms, and else the two trees joined. -/
def unite (s : Sign) (l r : Expr) : Expr :=
  match l, r with
  | .term t, .term u =>
    match t.unite? s u with
    | some v => .term v
    | none => .additive s l r
  | _, _ => .additive s l r

def additiveRule (s : Sign) (l r : Expr) : Course Expr := do
  let l' ← rewrite l
  let r' ← rewrite r
  return l'.unite s r'

/-- Rewrites products with the same factor again and again, collecting after every one. -/
def multiplyRepeatedly (factor : Expr) : Nat → Expr → Course Expr
  | 0, product => return product
  | n + 1, product => do
    let next ← rewrite (.scaling .mul product factor)
    multiplyRepeatedly factor n next.collect

/-- What a power with exponent zero rewrites to. A base without a rule does not stand in the way. -/
def zerothPower (l r : Expr) : Course Expr :=
  Course.orIfNoRule
    (do
      match ← rewrite l with
      | .term t =>
        if t.weight = 0 then .done (.error (.zeroToZero (.binary .power l r)))
        else return .number 1
      | _ => return .number 1)
    (return .number 1)

/-- The power of a term is taken at once, and any other base multiplied by itself. -/
def higherPower (l : Expr) (n : Nat) : Course Expr := do
  match ← rewrite l with
  | .term t => return .term (t.power n)
  | base => multiplyRepeatedly base (n - 1) base

def powerRule (l r : Expr) : Course Expr := do
  match ← rewrite r with
  | .term (.number n) =>
    if n = 0 then zerothPower l r
    else if n = 1 then rewrite l
    else if 1 < n then higherPower l n.toNat
    else noRule
  | _ => noRule

def isSigned : Expr → Bool
  | .unary .. => true
  | _ => false

def scaleSides (s : Scaling) (a : Sign) (x y r : Expr) : Course Expr := do
  let x' ← rewrite (.scaling s x r)
  let y' ← rewrite (.scaling s y r)
  return .additive a x' y'

def rescale (s : Scaling) (l r : Expr) : Course Expr := do
  let l' ← rewrite l
  let r' ← rewrite r
  rewrite (.scaling s l' r')

def rescaleUnsigned (s : Scaling) (l r : Expr) : Course Expr := do
  let l' ← rewrite l
  let r' ← rewrite r
  if l'.isSigned || r'.isSigned then noRule else rewrite (.scaling s l' r')

def rescaleSwapped (l r : Expr) : Course Expr := do
  let l' ← rewrite l
  let r' ← rewrite r
  rewrite (.scaling .mul r' l')

def divideByTerm (l r : Expr) : Course Expr := do
  match ← rewrite r with
  | .term u => rewrite (.scaling .div l (.term u))
  | _ => noRule

/-- The distribution shared by products and quotients; nothing if both operands are terms. -/
def distribution? (s : Scaling) (l r : Expr) : Option (Course Expr) :=
  match s, l, r with
  | _, .term _, .term _ => none
  | s, .unary .., _ | s, _, .unary .. => some (rescaleUnsigned s l r)
  | s, .binary (.additive a) x y, _ => some (scaleSides s a x y r)
  | s, .binary .., _ => some (rescale s l r)
  | .mul, .term _, .binary (.additive a) x y => some (scaleSides .mul a x y l)
  | .div, .term _, .binary (.additive _) _ _ => some (divideByTerm l r)
  | .mul, .term _, .binary .. => some (rescaleSwapped l r)
  | .div, .term _, .binary .. => some (rescale .div l r)

def productRule (l r : Expr) : Course Expr :=
  match distribution? .mul l r, l, r with
  | some course, _, _ => course
  | none, .term t, .term u => .done (return .term (← t.mul u))
  | none, _, _ => noRule

/-- One, if both operands rewrite to the same tree. -/
def sameOperands (l r : Expr) : Course Expr := do
  let l' ← rewrite l
  let r' ← rewrite r
  if l' = r' then return .number 1 else noRule

def quotientRule (l r : Expr) : Course Expr :=
  match distribution? .div l r, l, r with
  | some course, _, _ => course.orIfNoRule (sameOperands l r)
  | none, .term t, .term u =>
    Course.orIfNoRule (.done (return .term (← t.div u)))
      (if t = u then return .number 1 else noRule)
  | none, _, _ => noRule

def rule : Expr → Course Expr
  | .term t => return .term t
  | .unary (.sign .plus) e => plusRule e
  | .unary (.sign .minus) e => minusRule e
  | .unary (.unknown _) _ => noRule
  | .binary (.additive s) l r => additiveRule s l r
  | .binary (.scaling .mul) l r => productRule l r
  | .binary (.scaling .div) l r => quotientRule l r
  | .binary .power l r => powerRule l r
  | .binary (.unknown _) _ _ => noRule

end Expr

namespace Course

/-- The course ends with an outcome after so many rewritings, counting the ones that are asked for
in the course of others. -/
inductive Ends : Course Expr → Nat → Attempt Expr → Prop where
  | done (outcome : Attempt Expr) : Ends (.done outcome) 0 outcome
  | ask {e : Expr} {resume : Attempt Expr → Course Expr} {m n : Nat} {first outcome : Attempt Expr}
      (he : Ends e.rule m first) (h : Ends (resume first) n outcome) :
      Ends (.ask e resume) (m + n + 1) outcome

/-- The course comes to ask for the rewriting of a tree. -/
inductive Asks : Course Expr → Expr → Prop where
  | now (e : Expr) (resume : Attempt Expr → Course Expr) : Asks (.ask e resume) e
  | later {e e' : Expr} {resume : Attempt Expr → Course Expr} {m : Nat} {first : Attempt Expr}
      (he : Ends e.rule m first) (h : Asks (resume first) e') : Asks (.ask e resume) e'

def Leads (c : Course Expr) (outcome : Attempt Expr) : Prop := ∃ n, Ends c n outcome

variable {c d : Course Expr} {m n : Nat} {x y outcome outcome' : Attempt Expr}

theorem Ends.unique (h : Ends c n outcome) (h' : Ends c m outcome') :
    n = m ∧ outcome = outcome' := by
  induction h generalizing m outcome' with
  | done => cases h' with | done => exact ⟨rfl, rfl⟩
  | ask _ _ ihe ih =>
    cases h' with
    | ask he' h' =>
      obtain ⟨rfl, rfl⟩ := ihe he'
      obtain ⟨rfl, rfl⟩ := ih h'
      exact ⟨rfl, rfl⟩

/-- A rewriting that is asked for takes fewer rewritings than the course that asks for it. -/
theorem Ends.of_asks {e : Expr} (h : Ends c n outcome) (ha : Asks c e) :
    ∃ m first, m < n ∧ Ends e.rule m first := by
  induction h with
  | done => cases ha
  | @ask _ _ m n first _ he _ _ ih =>
    cases ha with
    | now => exact ⟨m, first, by omega, he⟩
    | later he' ha =>
      obtain ⟨-, rfl⟩ := he.unique he'
      obtain ⟨k, first', hk, hend⟩ := ih ha
      exact ⟨k, first', by omega, hend⟩

theorem Leads.done (outcome : Attempt Expr) : Leads (.done outcome) outcome := ⟨0, .done outcome⟩

theorem Leads.rewrite {e : Expr} (h : Leads e.rule x) : Leads (rewrite e) x := by
  obtain ⟨n, h⟩ := h
  exact ⟨n + 0 + 1, .ask h (.done x)⟩

theorem Leads.bind {f : Expr → Course Expr} {g : Expr → Attempt Expr} (h : Leads c x)
    (hf : ∀ a, x = .ok a → Leads (f a) (g a)) : Leads (c >>= f) (x >>= g) := by
  obtain ⟨n, h⟩ := h
  induction h with
  | done outcome =>
    cases outcome with
    | ok a => exact hf a rfl
    | error o => exact Leads.done (.error o)
  | ask he _ _ ih =>
    obtain ⟨k, hk⟩ := ih hf
    exact ⟨_, .ask he hk⟩

theorem Leads.bind_ok {f : Expr → Course Expr} {e : Expr} (h : Leads c (.ok e))
    (hf : Leads (f e) y) : Leads (c >>= f) y := by
  refine h.bind (g := fun _ => y) fun a ha => ?_
  cases ha
  exact hf

theorem Leads.bind_error {f : Expr → Course Expr} {o : Obstacle} (h : Leads c (.error o)) :
    Leads (c >>= f) (.error o) := by
  refine h.bind (g := fun _ => .error o) fun a ha => ?_
  cases ha

theorem Leads.orIfNoRule (h : Leads c x) (hd : x = .error .noRule → Leads d y) :
    Leads (c.orIfNoRule d) (x.orIfNoRule y) := by
  obtain ⟨n, h⟩ := h
  induction h with
  | done outcome =>
    cases outcome with
    | ok a => exact Leads.done (.ok a)
    | error o =>
      cases o with
      | noRule => exact hd rfl
      | divisionByZero n => exact Leads.done (.error (.divisionByZero n))
      | zeroToZero e => exact Leads.done (.error (.zeroToZero e))
  | ask he _ _ ih =>
    obtain ⟨k, hk⟩ := ih hd
    exact ⟨_, .ask he hk⟩

end Course

end LaurentCalc
