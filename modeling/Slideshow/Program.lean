/-! # Programs that call their surroundings

A program is a tree: it is done with a value, or makes a call and goes on with the answer. What is
outside (a store, a server, a renderer) is not part of the tree, so the same program can be run
against any surroundings, one call at a time, and cut off between any two calls. -/

namespace Slideshow

/-- A computation with a value of type `β` that calls its surroundings; `Answer` says what a call is
answered with. -/
inductive Program {Call : Type} (Answer : Call → Type) (β : Type) where
  | done (value : β)
  | call (request : Call) (next : Answer request → Program Answer β)

namespace Program

variable {Call : Type} {Answer : Call → Type} {β γ : Type}

/-- One program after another. -/
def andThen (f : β → Program Answer γ) : Program Answer β → Program Answer γ
  | done b => f b
  | call request next => call request fun answer => (next answer).andThen f

instance : Monad (Program Answer) where
  pure := done
  bind p f := p.andThen f

theorem done_bind (b : β) (f : β → Program Answer γ) : (done b >>= f) = f b := rfl

theorem call_bind (request : Call) (next : Answer request → Program Answer β)
    (f : β → Program Answer γ) :
    (call request next >>= f) = call request fun answer => next answer >>= f := rfl

def ask (request : Call) : Program Answer (Answer request) := call request done

/-- Runs a program in surroundings that answer every call. -/
def run {m : Type → Type} [Monad m] (answer : (request : Call) → m (Answer request)) :
    Program Answer β → m β
  | done b => pure b
  | call request next => do
    let a ← answer request
    (next a).run answer

/-- The program that makes at most `n` calls and is then cut off. -/
def cutAfter (n : Nat) : Program Answer β → Program Answer (Option β)
  | done b => done (some b)
  | call request next =>
    match n with
    | 0 => done none
    | n + 1 => call request fun a => (next a).cutAfter n

/-- The same program where every call is a call of a larger kind. -/
def embed {Large : Type} {LargeAnswer : Large → Type} (into : Call → Large)
    (back : (request : Call) → LargeAnswer (into request) → Answer request) :
    Program Answer β → Program LargeAnswer β
  | done b => done b
  | call request next => call (into request) fun a => (next (back request a)).embed into back

/-- A program in which every call is answered by a program of its own. -/
def expand {Large : Type} {LargeAnswer : Large → Type}
    (answer : (request : Call) → Program LargeAnswer (Answer request)) (p : Program Answer β) :
    Program LargeAnswer β := p.run answer

end Program

end Slideshow
