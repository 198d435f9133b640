import Mathlib.Logic.Function.Basic

/-! Programs that call an outside world, as trees: a finished value, a raised
error, or one atomic call with a continuation for every reply. -/
namespace Concurrent

/-- The calls programs can make: what each call replies, and what the outside
world decides about it. -/
structure Interface where
  Op : Type
  Reply : Op → Type
  Choice : Op → Type
  Err : Type

inductive Program (I : Interface) (α : Type) : Type
  | done (a : α)
  | raise (e : I.Err)
  | call (o : I.Op) (next : Except I.Err (I.Reply o) → Program I α)

namespace Program
variable {I : Interface} {α β γ : Type}

def bind : Program I α → (α → Program I β) → Program I β
  | done a, f => f a
  | raise e, _ => raise e
  | call o next, f => call o fun r => (next r).bind f

/-- `try p catch e => h e`. -/
def handle : Program I α → (I.Err → Program I α) → Program I α
  | done a, _ => done a
  | raise e, h => h e
  | call o next, h => call o fun r => (next r).handle h

/-- Run to the end and return what came out, an error included. -/
def attempt : Program I α → Program I (Except I.Err α)
  | done a => done (.ok a)
  | raise e => done (.error e)
  | call o next => call o fun r => (next r).attempt

def perform (o : I.Op) : Program I (I.Reply o) :=
  call o fun
    | .ok r => done r
    | .error e => raise e

instance : Monad (Program I) where
  pure := done
  bind := bind

instance : MonadExcept I.Err (Program I) where
  throw := raise
  tryCatch := handle

/-- `for (const b of bs) await f(b)`. -/
def forEach (f : β → Program I Unit) : List β → Program I Unit
  | [] => done ()
  | b :: bs => (f b).bind fun _ => forEach f bs

/-- The outcomes of `f` on every element (`Promise.allSettled`). -/
def settle (f : β → Program I α) : List β → Program I (List (Except I.Err α))
  | [] => done []
  | b :: bs => (f b).attempt.bind fun r => (settle f bs).bind fun rs => done (r :: rs)

/-- The results of `f` on every element (`Promise.all`). -/
def collect (f : β → Program I α) : List β → Program I (List α)
  | [] => done []
  | b :: bs => (f b).bind fun a => (collect f bs).bind fun as => done (a :: as)

/-- The program has no call left to make. -/
def isFinished : Program I α → Bool
  | done _ => true
  | raise _ => true
  | call _ _ => false

/-- What a finished program returned. -/
def result? : Program I α → Option α
  | done a => some a
  | _ => none

@[simp] theorem pure_eq (a : α) : (pure a : Program I α) = done a := rfl

@[simp] theorem bind_eq (p : Program I α) (f : α → Program I β) : p >>= f = p.bind f := rfl

@[simp] theorem throw_eq (e : I.Err) : (throw e : Program I α) = raise e := rfl

@[simp] theorem tryCatch_eq (p : Program I α) (h : I.Err → Program I α) :
    tryCatch p h = p.handle h := rfl

theorem bind_bind {p : Program I α} {f : α → Program I β} {g : β → Program I γ} :
    (p.bind f).bind g = p.bind fun a => (f a).bind g := by
  induction p with
  | done a => rfl
  | raise e => rfl
  | call o next ih => exact congrArg (call o) (funext ih)

@[simp] theorem done_bind (a : α) (f : α → Program I β) : (done a).bind f = f a := rfl

@[simp] theorem raise_bind (e : I.Err) (f : α → Program I β) : (raise e : Program I α).bind f = raise e :=
  rfl

theorem result?_eq_some {p : Program I α} {a : α} : p.result? = some a ↔ p = done a := by
  cases p <;> simp [result?]

end Program
end Concurrent
